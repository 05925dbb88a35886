import Bolina.Control.RouteHttp
import Bolina.Framework.LineText
import Mathlib.Data.List.Flatten

namespace Bolina.Control

open LineText Utf8

/-- The counters of the daemon that have a line of their own. The line of the timeouts has
no counter behind it. -/
inductive Counter where
  | admitted
  | ctlRequests
  | ctlAuthRefused
  | wireAdmissions
  | ledgerInserts
  | ledgerStorefull
  | handshakeReleased
  | slotsUsed
  | rejects (c : WireRejectClass)
  deriving DecidableEq

theorem rejectNames_length : rejectNames.length=WireRejectClass.count := rfl

def WireRejectClass.name (c : WireRejectClass) : String := rejectNames.get ⟨c.index,c.index_lt⟩

def rejectFront : Bytes := ascii "bolina_wire_rejects_total\x7bclass=\""

def rejectBack : Bytes := ascii "\"\x7d"

def rejectLine (name : String) : Bytes := rejectFront++ascii name++rejectBack

def Counter.name : Counter → Bytes
  | .admitted => ascii "bolina_intents_admitted_total"
  | .ctlRequests => ascii "bolina_ctl_requests_total"
  | .ctlAuthRefused => ascii "bolina_ctl_auth_refused_total"
  | .wireAdmissions => ascii "bolina_wire_admissions_total"
  | .ledgerInserts => ascii "bolina_ledger_inserts_total"
  | .ledgerStorefull => ascii "bolina_ledger_storefull_total"
  | .handshakeReleased => ascii "bolina_handshake_released_total"
  | .slotsUsed => ascii "bolina_handshake_slots_used"
  | .rejects c => rejectLine c.name

/-- What the text gives for a counter. -/
def Counter.shown (ctx : RouteCtx) : Counter → Nat
  | .admitted => ctx.metrics.admittedTotal
  | .ctlRequests => 0
  | .ctlAuthRefused => 0
  | .wireAdmissions => ctx.wire.admissionsTotal
  | .ledgerInserts => ctx.ledgerInserts
  | .ledgerStorefull => ctx.ledgerStorefull
  | .handshakeReleased => ctx.handshakeReleasedTotal
  | .slotsUsed => ctx.hsSlotsUsed
  | .rejects c => ctx.wire.rejects.get ⟨c.index,c.index_lt⟩

/-- The text has one line for the counter, and it gives this value. -/
def Stated (body : Bytes) (c : Counter) (value : Nat) : Prop :=
  (table lf sp body).filter (fun r => r.1=c.name)=[(c.name,decimal value)]

/-- The lines of the text. -/
def metricRows (ctx : RouteCtx) : List (Bytes × Nat) :=
  [(ascii "bolina_intents_admitted_total",ctx.metrics.admittedTotal),
    (ascii "bolina_ctl_requests_total",0),
    (ascii "bolina_ctl_auth_refused_total",0),
    (ascii "bolina_ctl_timeouts_total",0),
    (ascii "bolina_wire_admissions_total",ctx.wire.admissionsTotal),
    (ascii "bolina_ledger_inserts_total",ctx.ledgerInserts),
    (ascii "bolina_ledger_storefull_total",ctx.ledgerStorefull),
    (ascii "bolina_handshake_released_total",ctx.handshakeReleasedTotal),
    (ascii "bolina_handshake_slots_used",ctx.hsSlotsUsed)]++
  (rejectNames.map rejectLine).zip ctx.wire.rejects.toList

/-- The names in front of those of the classes. -/
def totalNames : List Bytes :=
  [ascii "bolina_intents_admitted_total",ascii "bolina_ctl_requests_total",ascii "bolina_ctl_auth_refused_total",
    ascii "bolina_ctl_timeouts_total",ascii "bolina_wire_admissions_total",ascii "bolina_ledger_inserts_total",
    ascii "bolina_ledger_storefull_total",ascii "bolina_handshake_released_total",
    ascii "bolina_handshake_slots_used"]

/-- The names of the lines do not depend on the counters. -/
def metricNames : List Bytes := totalNames++rejectNames.map rejectLine

section Names

theorem rejectLine_eq (name : String) : rejectLine name=rejectFront++(ascii name++rejectBack) := List.append_assoc _ _ _

theorem classes_nodup : (rejectNames.map ascii).Nodup := by decide +kernel

/-- No class has two lines. -/
theorem metricNames_nodup : metricNames.Nodup := by
  have hclasses : (rejectNames.map rejectLine).Nodup := by
    have hinj : Function.Injective (fun n : Bytes => rejectFront++(n++rejectBack)) := by
      intro a b h
      exact List.append_cancel_right (List.append_cancel_left h)
    have hmap : rejectNames.map rejectLine=(rejectNames.map ascii).map (fun n => rejectFront++(n++rejectBack)) := by
      rw [List.map_map]
      exact List.map_congr_left (fun n _ => rejectLine_eq n)
    rw [hmap]
    exact classes_nodup.map hinj
  have htotals : ∀n∈totalNames,¬rejectFront <+: n := by decide +kernel
  rw [metricNames,List.nodup_append]
  refine ⟨by decide +kernel,hclasses,?_⟩
  intro n hn m hm he
  obtain ⟨name,_,hname⟩ := List.mem_map.mp hm
  apply htotals n hn
  rw [he,← hname,rejectLine_eq]
  exact List.prefix_append _ _

theorem metricNames_plain : ∀n∈metricNames,sp∉n ∧ lf∉n := by
  have htotals : ∀n∈totalNames,sp∉n ∧ lf∉n := by decide +kernel
  have hfront : sp∉rejectFront ∧ lf∉rejectFront := by decide +kernel
  have hback : sp∉rejectBack ∧ lf∉rejectBack := by decide +kernel
  have hclasses : ∀n∈rejectNames.map ascii,sp∉n ∧ lf∉n := by decide +kernel
  intro n hn
  cases List.mem_append.mp hn with
  | inl hn => exact htotals n hn
  | inr hn =>
    obtain ⟨name,hname,he⟩ := List.mem_map.mp hn
    obtain ⟨hsp,hlf⟩ := hclasses _ (List.mem_map_of_mem hname)
    rw [← he,rejectLine_eq]
    simp only [List.mem_append,not_or]
    exact ⟨⟨hfront.1,hsp,hback.1⟩,⟨hfront.2,hlf,hback.2⟩⟩

end Names

section Digits

/-- The byte of a digit is the digit's code. -/
theorem digit_byte {c : Char} (h : c.isDigit=true) : (UInt8.ofNat c.toNat).toNat=c.toNat ∧ 48 ≤ c.toNat := by
  have hcode : 48 ≤ c.toNat ∧ c.toNat ≤ 57 := by
    rw [Char.isDigit,Bool.and_eq_true,decide_eq_true_eq,decide_eq_true_eq] at h
    exact h
  refine ⟨?_,hcode.1⟩
  rw [UInt8.toNat_ofNat']
  omega

theorem decimal_digits (n : Nat) : ∀c∈Nat.toDigits 10 n,c.isDigit=true := fun _ hc =>
  Nat.isDigit_of_mem_toDigits (by decide) (by decide) hc

theorem decimal_chars (n : Nat) : (decimal n).map (fun b => Char.ofNat b.toNat)=Nat.toDigits 10 n := by
  have hback : ∀c∈Nat.toDigits 10 n,((fun b : UInt8 => Char.ofNat b.toNat)∘fun c => UInt8.ofNat c.toNat) c=c := by
    intro c hc
    change Char.ofNat (UInt8.ofNat c.toNat).toNat=c
    rw [(digit_byte (decimal_digits n c hc)).1]
    exact Char.ofNat_toNat c
  rw [decimal,List.map_map]
  exact (List.map_congr_left hback).trans (List.map_id _)

theorem decimal_injective : Function.Injective decimal := by
  intro a b h
  have hd : Nat.toDigits 10 a=Nat.toDigits 10 b := by
    rw [← decimal_chars,← decimal_chars,h]
  have hp := congrArg (fun digits => Nat.ofDigitChars 10 digits 0) hd
  simpa using hp

theorem decimal_plain (n : Nat) : lf∉decimal n := by
  intro h
  obtain ⟨c,hc,he⟩ := List.mem_map.mp h
  obtain ⟨hbyte,hcode⟩ := digit_byte (decimal_digits n c hc)
  rw [he] at hbyte
  have hlf : lf.toNat=10 := rfl
  omega

end Digits

section Text

variable (ctx : RouteCtx)

theorem metricRows_names : (metricRows ctx).map Prod.fst=metricNames := by
  have hlen : (rejectNames.map rejectLine).length ≤ ctx.wire.rejects.toList.length := by
    rw [List.length_map,List.Vector.toList_length]
    exact Nat.le_of_eq rejectNames_length
  rw [metricRows,List.map_append,List.map_fst_zip hlen]
  rfl

theorem metricsBody_render : metricsBody ctx=renderTable lf sp ((metricRows ctx).map (fun r => (r.1,decimal r.2))) := by
  have hrows : ∀names : List String,∀vals : List Nat,
      (names.zip vals).flatMap (fun r => metricLine (rejectLine r.1) r.2)=
        renderTable lf sp (((names.map rejectLine).zip vals).map (fun r => (r.1,decimal r.2))) := by
    intro names vals
    rw [List.zip_map_left,List.map_map,renderTable,List.flatMap_map]
    rfl
  have hclasses := hrows rejectNames ctx.wire.rejects.toList
  rw [metricRows,List.map_append,renderTable,List.flatMap_append]
  rw [renderTable] at hclasses
  rw [← hclasses]
  simp only [metricsBody,metricLine,rejectLine,rejectFront,rejectBack,List.map_cons,List.map_nil,List.flatMap_cons,List.flatMap_nil,
    List.append_nil,List.append_assoc]

theorem metricsBody_table : table lf sp (metricsBody ctx)=(metricRows ctx).map (fun r => (r.1,decimal r.2)) := by
  rw [metricsBody_render]
  apply table_render (by decide)
  intro r hr
  obtain ⟨row,hrow,he⟩ := List.mem_map.mp hr
  have hname : row.1∈metricNames := by
    rw [← metricRows_names ctx]
    exact List.mem_map_of_mem hrow
  obtain ⟨hsp,hlf⟩ := metricNames_plain row.1 hname
  rw [← he]
  exact ⟨hsp,hlf,decimal_plain row.2⟩

theorem shown_mem (c : Counter) : (c.name,c.shown ctx)∈metricRows ctx := by
  cases c with
  | rejects c =>
    apply List.mem_append_right
    have hname : c.index < rejectNames.length := c.index_lt
    have hcount : c.index < ctx.wire.rejects.toList.length := by
      rw [List.Vector.toList_length]
      exact c.index_lt
    rw [List.mem_iff_getElem?]
    refine ⟨c.index,List.getElem?_zip_eq_some.mpr ⟨?_,?_⟩⟩
    · rw [List.getElem?_map,List.getElem?_eq_getElem hname]
      rfl
    · rw [List.getElem?_eq_getElem hcount]
      rfl
  | _ => simp [metricRows,Counter.name,Counter.shown]

/-- Every counter has one line, and its value is the one that is shown. -/
theorem stated_iff (c : Counter) (value : Nat) : Stated (metricsBody ctx) c value ↔ value=c.shown ctx := by
  have hnodup : (((metricRows ctx).map (fun r => (r.1,decimal r.2))).map Prod.fst).Nodup := by
    rw [List.map_map]
    have hn := metricNames_nodup
    rw [← metricRows_names ctx] at hn
    exact hn
  have hmem : (c.name,decimal (c.shown ctx))∈(metricRows ctx).map (fun r => (r.1,decimal r.2)) :=
    List.mem_map.mpr ⟨_,shown_mem ctx c,rfl⟩
  rw [Stated,metricsBody_table,filter_key hnodup hmem]
  constructor
  · intro h
    exact (decimal_injective (Prod.mk.inj (List.cons.inj h).1).2).symm
  · intro h
    rw [h]

end Text

end Bolina.Control
