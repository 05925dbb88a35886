import Bolina.Control.RouteHttp
import Bolina.Framework.GuardedRun

namespace Bolina.TokenBoot

open Transport (hexDigit)
open Control (asciiLower)
open Token (hex hexVal hexVals hexByte load SaveOutcome)
open GuardedRun

/-- The token file: it is not there, it cannot be read, or what it holds. -/
inductive TokenFile where
  | absent
  | unreadable
  | holds (content : Bytes)
  deriving DecidableEq

def TokenFile.read : TokenFile → Option Bytes
  | .holds content => some content
  | _ => none

/-- The file behind a save; one that does not open stays as it is. -/
def TokenFile.saved (f : TokenFile) (raw : FixedBytes 32) (outcome : SaveOutcome) : TokenFile :=
  match Token.save none raw outcome with
  | none => f
  | some content => .holds content

/-- What a start of the daemon meets: whether the steps before the token succeed, whether a
control plane is asked for, what the generator gives and how the save ends. -/
structure StartIo where
  ready : Bool
  control : Bool
  raw : FixedBytes 32
  save : SaveOutcome

/-- `fatal`: the process ends; `running`: with the token of its control plane. -/
inductive Started where
  | fatal
  | running (token : Option (FixedBytes 64))
  deriving DecidableEq

/-- A save that fails is fatal. -/
def boot (f : TokenFile) (io : StartIo) : Started × TokenFile :=
  if io.ready=false then (.fatal,f)
  else if io.control=false then (.running none,f)
  else
    match load f.read with
    | some raw => (.running (some (hex raw)),f)
    | none => (if io.save.ok=true then .running (some (hex io.raw)) else .fatal,f.saved io.raw io.save)

/-- The host: its token file and the token of its last start, one that was served or whose
save has come to the file. -/
structure Host where
  file : TokenFile
  last : Option (FixedBytes 32)

inductive Event where
  | between (content : Option Bytes)
  | start (io : StartIo)

def Host.lastOf (h : Host) (io : StartIo) : Option (FixedBytes 32) :=
  if io.ready=false ∨ io.control=false then h.last
  else
    match load h.file.read with
    | some raw => some raw
    | none =>
      match io.save with
      | .unopened => h.last
      | .stopped _ => h.last.orElse (fun _ => some io.raw)
      | .saved => some io.raw

/-- Between two starts the file may come to hold anything, or nothing that can be read, but
it is not deleted. -/
def Host.step (h : Host) : Event → Host
  | .between none => { h with file := .unreadable }
  | .between (some content) => { h with file := .holds content }
  | .start io => ⟨(boot h.file io).2,h.lastOf io⟩

/-- A property of a start that has a token before it. -/
def AtStart (P : FixedBytes 32 → TokenFile → StartIo → Prop) (h : Host) (e : Event) : Prop :=
  ∀io token,e=.start io → h.last=some token → P token h.file io

/-- The start serves the token or none, and brings no other one to the file. -/
structure Keeps (token : FixedBytes 32) (f : TokenFile) (io : StartIo) : Prop where
  served : ∀t,(boot f io).1=.running (some t) → t=hex token
  stored : ∀raw,load (boot f io).2.read=some raw → load f.read=some raw ∨ raw=token

/-- The file holds the token, in digits of any case. -/
def Reads (f : TokenFile) (token : FixedBytes 32) : Prop :=
  ∃content,f=.holds content ∧ content.map asciiLower=(hex token).toList

/-- The start comes to no token; or the file holds the last one; or it holds none, and the
save does not open the file, stops inside the token, or stores the last one again. -/
def Guarded (token : FixedBytes 32) (f : TokenFile) (io : StartIo) : Prop :=
  io.ready=true → io.control=true →
    Reads f token ∨
      ((∀raw,¬Reads f raw) ∧ (io.save=.unopened ∨ (∃k < Token.tokenHexLen,io.save=.stopped k) ∨ io.raw=token))

theorem hexVal_iff (b v : UInt8) (hv : v < 16) : hexVal b=some v ↔ asciiLower b=hexDigit v := by
  have hall : ∀n : Fin 256,∀k : Fin 16,hexVal (UInt8.ofNat n)=some (UInt8.ofNat k) ↔
      asciiLower (UInt8.ofNat n)=hexDigit (UInt8.ofNat k) := by decide +kernel
  have hk : v.toNat < 16 := hv
  have h := hall ⟨b.toNat,b.toNat_lt⟩ ⟨v.toNat,hk⟩
  rwa [UInt8.ofNat_toNat,UInt8.ofNat_toNat] at h

theorem hexVal_lt {b v : UInt8} (h : hexVal b=some v) : v < 16 := by
  have hall : ∀n : Fin 256,(hexVal (UInt8.ofNat n)).all (fun w => decide (w < 16))=true := by decide +kernel
  have hb := hall ⟨b.toNat,b.toNat_lt⟩
  rw [UInt8.ofNat_toNat,h] at hb
  exact of_decide_eq_true hb

theorem nibbles (h l : UInt8) (hh : h < 16) (hl : l < 16) :
    ((h<<<(4 : UInt8))|||l)>>>(4 : UInt8)=h ∧ ((h<<<(4 : UInt8))|||l)&&&(0x0f : UInt8)=l := by
  have hall : ∀a b : Fin 16,
      ((UInt8.ofNat a<<<(4 : UInt8))|||UInt8.ofNat b)>>>(4 : UInt8)=UInt8.ofNat a ∧
        ((UInt8.ofNat a<<<(4 : UInt8))|||UInt8.ofNat b)&&&(0x0f : UInt8)=UInt8.ofNat b := by decide +kernel
  have hh' : h.toNat < 16 := hh
  have hl' : l.toNat < 16 := hl
  have hn := hall ⟨h.toNat,hh'⟩ ⟨l.toNat,hl'⟩
  rwa [UInt8.ofNat_toNat,UInt8.ofNat_toNat] at hn

theorem byte_nibbles (b : UInt8) :
    b>>>(4 : UInt8) < 16 ∧ b&&&(0x0f : UInt8) < 16 ∧ ((b>>>(4 : UInt8))<<<(4 : UInt8))|||(b&&&(0x0f : UInt8))=b := by
  have hall : ∀n : Fin 256,UInt8.ofNat n>>>(4 : UInt8) < 16 ∧ UInt8.ofNat n&&&(0x0f : UInt8) < 16 ∧
      ((UInt8.ofNat n>>>(4 : UInt8))<<<(4 : UInt8))|||(UInt8.ofNat n&&&(0x0f : UInt8))=UInt8.ofNat n := by
    decide +kernel
  have hb := hall ⟨b.toNat,b.toNat_lt⟩
  rwa [UInt8.ofNat_toNat] at hb

theorem hexVals_some {hi lo b : UInt8} {rest bs : Bytes} :
    hexVals (hi::lo::rest)=some (b::bs) ↔
      ∃h l,hexVal hi=some h ∧ hexVal lo=some l ∧ (h<<<(4 : UInt8))|||l=b ∧ hexVals rest=some bs := by
  simp only [hexVals,Option.bind_eq_bind,Option.bind_eq_some_iff,Option.pure_def,Option.some.injEq,List.cons.injEq]
  constructor
  · intro hval
    obtain ⟨h,hh,l,hl,tail,htail,hb,hbs⟩ := hval
    rw [hbs] at htail
    exact ⟨h,l,hh,hl,hb,htail⟩
  · intro hval
    obtain ⟨h,l,hh,hl,hb,htail⟩ := hval
    exact ⟨h,hh,l,hl,bs,htail,hb,rfl⟩

theorem hexVals_length (content bs : Bytes) (h : hexVals content=some bs) : bs.length=content.length/2 := by
  induction bs generalizing content with
  | nil =>
    cases content with
    | nil => rfl
    | cons hi tail =>
      cases tail with
      | nil => simp
      | cons lo rest => simp [hexVals,Option.bind_eq_some_iff] at h
  | cons b bs ih =>
    cases content with
    | nil => simp [hexVals] at h
    | cons hi tail =>
      cases tail with
      | nil => simp [hexVals] at h
      | cons lo rest =>
        obtain ⟨_,_,_,_,_,htail⟩ := hexVals_some.mp h
        have hlen := ih rest htail
        simp only [List.length_cons]
        omega

/-- What decodes to the bytes is their digits, in any case. -/
theorem hexVals_iff (bs content : Bytes) (hlen : content.length=2*bs.length) :
    hexVals content=some bs ↔ content.map asciiLower=bs.flatMap hexByte := by
  induction bs generalizing content with
  | nil =>
    have hnil : content=[] := List.length_eq_zero_iff.mp hlen
    rw [hnil]
    simp [hexVals]
  | cons b bs ih =>
    cases content with
    | nil => simp at hlen
    | cons hi tail =>
      cases tail with
      | nil =>
        rw [List.length_singleton,List.length_cons] at hlen
        omega
      | cons lo rest =>
        have hrest : rest.length=2*bs.length := by
          simp only [List.length_cons] at hlen
          omega
        obtain ⟨hh,hl,hb⟩ := byte_nibbles b
        rw [List.flatMap_cons,hexByte,List.map_cons,List.map_cons,List.cons_append,List.cons_append,List.nil_append,
          List.cons.injEq,List.cons.injEq,← ih rest hrest,← hexVal_iff hi _ hh,← hexVal_iff lo _ hl,hexVals_some]
        constructor
        · intro h
          obtain ⟨vh,vl,hvh,hvl,hbyte,htail⟩ := h
          obtain ⟨hhi,hlo⟩ := nibbles vh vl (hexVal_lt hvh) (hexVal_lt hvl)
          rw [hbyte] at hhi hlo
          rw [hhi,hlo]
          exact ⟨hvh,hvl,htail⟩
        · intro h
          obtain ⟨hhi,hlo,htail⟩ := h
          exact ⟨_,_,hhi,hlo,hb,htail⟩

/-- The loader finds a token exactly where the file holds it. -/
theorem load_iff (f : TokenFile) (token : FixedBytes 32) : load f.read=some token ↔ Reads f token := by
  cases f with
  | absent =>
    constructor
    · intro h
      cases h
    · intro h
      obtain ⟨content,hf,_⟩ := h
      cases hf
  | unreadable =>
    constructor
    · intro h
      cases h
    · intro h
      obtain ⟨content,hf,_⟩ := h
      cases hf
  | holds content =>
    have hread : Reads (.holds content) token ↔ content.map asciiLower=(hex token).toList := by
      constructor
      · intro h
        obtain ⟨c,hc,hmap⟩ := h
        cases hc
        exact hmap
      · intro h
        exact ⟨content,rfl,h⟩
    have hsize : token.toList.length=32 := token.toList_length
    rw [hread,TokenFile.read,load,Token.hex_toList]
    simp only [Option.bind_eq_bind,Option.bind_some]
    by_cases hlen : content.length=Token.tokenHexLen
    · have hcontent : content.length=2*token.toList.length := by
        rw [hlen,hsize]
        rfl
      rw [if_neg (not_not.mpr hlen),← hexVals_iff token.toList content hcontent]
      constructor
      · intro h
        obtain ⟨bs,hbs,hfixed⟩ := Option.map_eq_some_iff.mp h
        have hbytes : bs.length=32 := by
          rw [hexVals_length content bs hbs,hlen]
          rfl
        rw [hbs,← hfixed,toList_fixed bs hbytes]
      · intro h
        rw [h,Option.map_some,fixed_toList]
    · rw [if_pos hlen]
      constructor
      · intro h
        cases h
      · intro h
        have hl : (content.map asciiLower).length=(token.toList.flatMap hexByte).length := by rw [h]
        rw [List.length_map,← Token.hex_toList,List.Vector.toList_length] at hl
        exact absurd hl hlen

theorem hex_injective {a b : FixedBytes 32} (h : hex a=hex b) : a=b := by
  have ha := Token.load_hex a
  rw [h,Token.load_hex] at ha
  exact (Option.some.inj ha).symm

/-- A saved token is the one that is loaded. -/
theorem load_saved (f : TokenFile) (raw : FixedBytes 32) : load (f.saved raw .saved).read=some raw :=
  Token.load_hex raw

section Start

variable {f : TokenFile} {io : StartIo} {token : FixedBytes 32}

theorem boot_loads {raw : FixedBytes 32} (hr : io.ready=true) (hc : io.control=true) (h : load f.read=some raw) :
    boot f io=(.running (some (hex raw)),f) := by
  simp [boot,hr,hc,h]

theorem boot_generates (hr : io.ready=true) (hc : io.control=true) (h : load f.read=none) :
    boot f io=(if io.save.ok=true then .running (some (hex io.raw)) else .fatal,f.saved io.raw io.save) := by
  simp [boot,hr,hc,h]

/-- What a save leaves, where the file held no token. -/
theorem stored_iff (h : load f.read=none) :
    (∀raw,load (f.saved io.raw io.save).read=some raw → load f.read=some raw ∨ raw=token) ↔
      io.save=.unopened ∨ (∃k < Token.tokenHexLen,io.save=.stopped k) ∨ io.raw=token := by
  rw [h]
  -- a token that is stored whole is the one token that the file then holds
  have hwhole : (∀raw,some io.raw=some raw → none=some raw ∨ raw=token) ↔ io.raw=token := by simp
  cases hsave : io.save with
  | unopened =>
    have hsame : f.saved io.raw .unopened=f := rfl
    rw [hsame,h]
    simp
  | stopped k =>
    have hcut : load (f.saved io.raw (.stopped k)).read=load (some ((hex io.raw).toList.take k)) := rfl
    rw [hcut]
    by_cases hk : k < Token.tokenHexLen
    · rw [Token.load_take io.raw k hk]
      simp [hk]
    · have hall : (hex io.raw).toList.take k=(hex io.raw).toList :=
        List.take_of_length_le (by rw [List.Vector.toList_length]; exact Nat.le_of_not_lt hk)
      rw [hall,Token.load_hex,hwhole]
      simp [Nat.le_of_not_lt hk]
  | saved =>
    rw [load_saved,hwhole]
    simp

/-- A start that does not come to the token leaves everything as it is. -/
theorem keeps_away (h : io.ready=false ∨ io.control=false) : Keeps token f io := by
  have hboot : (boot f io).2=f ∧ ∀t,(boot f io).1≠.running (some t) := by
    rw [boot]
    by_cases hr : io.ready=false
    · rw [if_pos hr]
      exact ⟨rfl,by simp⟩
    · have hc : io.control=false := h.resolve_left hr
      rw [if_neg hr,if_pos hc]
      exact ⟨rfl,by simp⟩
  constructor
  · intro t ht
    exact absurd ht (hboot.2 t)
  · intro raw hload
    rw [hboot.1] at hload
    exact .inl hload

theorem keeps_loaded {raw : FixedBytes 32} (hr : io.ready=true) (hc : io.control=true) (h : load f.read=some raw) :
    Keeps token f io ↔ raw=token := by
  have hboot := boot_loads hr hc h
  constructor
  · intro hk
    exact hex_injective (hk.served (hex raw) (by rw [hboot]))
  · intro he
    constructor
    · intro t ht
      rw [hboot,Started.running.injEq,Option.some.injEq] at ht
      rw [← ht,he]
    · intro u hu
      rw [hboot] at hu
      exact .inl hu

theorem keeps_generated (hr : io.ready=true) (hc : io.control=true) (h : load f.read=none) :
    Keeps token f io ↔ io.save=.unopened ∨ (∃k < Token.tokenHexLen,io.save=.stopped k) ∨ io.raw=token := by
  have hboot := boot_generates hr hc h
  rw [← stored_iff h]
  constructor
  · intro hk
    have hstored := hk.stored
    rw [hboot] at hstored
    exact hstored
  · intro hstored
    constructor
    · intro t ht
      rw [hboot] at ht
      cases hsave : io.save with
      | unopened =>
        rw [hsave] at ht
        cases ht
      | stopped k =>
        rw [hsave] at ht
        cases ht
      | saved =>
        rw [stored_iff h,hsave] at hstored
        have hraw : io.raw=token := by simpa using hstored
        rw [hsave] at ht
        rw [← hraw]
        exact (Option.some.inj (Started.running.inj ht)).symm
    · rw [hboot]
      exact hstored

theorem keeps_iff : Keeps token f io ↔ Guarded token f io := by
  by_cases haway : io.ready=false ∨ io.control=false
  · constructor
    · intro _ hr hc
      rw [hr,hc] at haway
      simp at haway
    · intro _
      exact keeps_away haway
  · rw [not_or,Bool.not_eq_false,Bool.not_eq_false] at haway
    obtain ⟨hr,hc⟩ := haway
    have hguard : Guarded token f io ↔ Reads f token ∨ ((∀raw,¬Reads f raw) ∧
        (io.save=.unopened ∨ (∃k < Token.tokenHexLen,io.save=.stopped k) ∨ io.raw=token)) := by
      rw [Guarded]
      exact ⟨fun h => h hr hc,fun h _ _ => h⟩
    rw [hguard]
    simp only [← load_iff]
    cases hload : load f.read with
    | some raw =>
      rw [keeps_loaded hr hc hload]
      simp
    | none =>
      rw [keeps_generated hr hc hload]
      simp

end Start

theorem atStart_iff (h : Host) (e : Event) : AtStart Keeps h e ↔ AtStart Guarded h e := by
  constructor
  · intro hk io token he hl
    exact keeps_iff.mp (hk io token he hl)
  · intro hg io token he hl
    exact keeps_iff.mpr (hg io token he hl)

/-- Every start of a history keeps the token of the one before exactly when each of them
is guarded; and what is saved is what is loaded. -/
theorem token_kept_iff (host : Host) (events : List Event) :
    (Meets Host.step (AtStart Keeps) host events ↔ Meets Host.step (AtStart Guarded) host events) ∧
      ∀(f : TokenFile) (raw : FixedBytes 32),load (f.saved raw .saved).read=some raw := by
  refine ⟨?_,load_saved⟩
  exact meets_congr (I := fun _ => True) (fun _ _ _ => trivial) (fun h e _ => atStart_iff h e) host events trivial

def firstToken : FixedBytes 32 := fixed 32 []
def secondToken : FixedBytes 32 := fixed 32 [1]

def starts (raw : FixedBytes 32) (save : SaveOutcome) : Event := .start ⟨true,true,raw,save⟩

/-- A crash in the save and a file that lost its end: both times the next start serves
another token. -/
theorem token_rotates :
    ¬Meets Host.step (AtStart Keeps) ⟨.absent,none⟩
        [starts firstToken .saved,.between (some [0x30]),starts secondToken .saved] ∧
      ¬Meets Host.step (AtStart Keeps) ⟨.absent,none⟩
        [starts firstToken (.stopped 10),starts secondToken .saved] ∧
      (boot (.holds [0x30]) ⟨true,true,secondToken,.saved⟩).1=.running (some (hex secondToken)) := by
  have hne : hex secondToken≠hex firstToken := by decide +kernel
  have hserved : ∀content,load (some content)=none →
      (boot (.holds content) ⟨true,true,secondToken,.saved⟩).1=.running (some (hex secondToken)) := by
    intro content h
    rw [@boot_generates (.holds content) ⟨true,true,secondToken,.saved⟩ rfl rfl h]
    rfl
  refine ⟨?_,?_,hserved [0x30] (by decide +kernel)⟩
  · intro h
    have hlast := h.2.2.1 ⟨true,true,secondToken,.saved⟩ firstToken rfl (by decide +kernel)
    exact hne (hlast.served (hex secondToken) (hserved [0x30] (by decide +kernel)))
  · intro h
    have hlast := h.2.1 ⟨true,true,secondToken,.saved⟩ firstToken rfl (by decide +kernel)
    exact hne (hlast.served (hex secondToken) (hserved _ (by decide +kernel)))

end Bolina.TokenBoot
