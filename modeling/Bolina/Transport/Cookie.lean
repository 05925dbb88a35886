import Bolina.Transport.NoiseAgreement

namespace Bolina.Transport

open Codec Noise

def cookieRotateMs : UInt64 := 120000

/-- The one secret of the cookies, with the time it was made. -/
structure CookieSecret where
  secret : Key
  createdMs : UInt64

namespace CookieSecret

def new (initialSecret : Key) (nowMs : UInt64) : CookieSecret := ⟨initialSecret,nowMs⟩

/-- The age wraps: a clock that went back makes it huge. -/
def needsRotate (c : CookieSecret) (nowMs : UInt64) : Bool := cookieRotateMs ≤ nowMs-c.createdMs

/-- The old secret is not kept. -/
def rotate (_ : CookieSecret) (newSecret : Key) (nowMs : UInt64) : CookieSecret := ⟨newSecret,nowMs⟩

/-- A rotation of the host: the new secret and the time. -/
abbrev Rotation := Key × UInt64

def rotateAll (c : CookieSecret) (rs : List Rotation) : CookieSecret :=
  rs.foldl (fun c r => c.rotate r.1 r.2) c

/-- The secrets of a history, one for each epoch. -/
def secrets (c : CookieSecret) (rs : List Rotation) : List Key := c.secret::rs.map Prod.fst

section Cookies

variable (S : Suite)

def issueCookie (c : CookieSecret) (sourceAddr : Bytes) : Mac := S.blake2sMac c.secret sourceAddr

def verifyCookie (c : CookieSecret) (sourceAddr : Bytes) (received : Mac) : Bool :=
  c.issueCookie S sourceAddr=received

/-- No secret of the history is used twice, and no two of them give one tag for the address. -/
structure Distinct (c : CookieSecret) (rs : List Rotation) (sourceAddr : Bytes) : Prop where
  secrets : (c.secrets rs).Nodup
  tags : ∀k∈c.secrets rs,∀k'∈c.secrets rs,S.blake2sMac k sourceAddr=S.blake2sMac k' sourceAddr → k=k'

/-- The cookie issued behind the first rotations, shown behind the later ones. -/
def accepted (c : CookieSecret) (before after : List Rotation) (sourceAddr : Bytes) : Bool :=
  (c.rotateAll (before++after)).verifyCookie S sourceAddr ((c.rotateAll before).issueCookie S sourceAddr)

end Cookies

section Epochs

variable {S : Suite} {c : CookieSecret} {before after : List Rotation} {sourceAddr : Bytes}

/-- The secret in place is that of the last epoch. -/
theorem rotateAll_secret (c : CookieSecret) (rs : List Rotation) :
    (c.secrets rs).getLast?=some (c.rotateAll rs).secret := by
  induction rs generalizing c with
  | nil => rfl
  | cons r rs ih => exact ih (c.rotate r.1 r.2)

theorem rotateAll_mem (c : CookieSecret) (rs : List Rotation) : (c.rotateAll rs).secret∈c.secrets rs :=
  List.mem_of_getLast? (rotateAll_secret c rs)

theorem secrets_append (c : CookieSecret) (before after : List Rotation) :
    c.secrets (before++after)=c.secrets before++after.map Prod.fst := by
  simp [secrets]

theorem distinct_front (h : Distinct S c (before++after) sourceAddr) : Distinct S c before sourceAddr := by
  have hsub : c.secrets before⊆c.secrets (before++after) := by
    rw [secrets_append]
    exact List.subset_append_left _ _
  constructor
  · have hd := h.secrets
    rw [secrets_append] at hd
    exact (List.nodup_append.mp hd).1
  · intro k hk k' hk'
    exact h.tags k (hsub hk) k' (hsub hk')

/-- The secret of a later epoch is not that of an earlier one. -/
theorem rotated_away (hd : (c.secrets (before++after)).Nodup) (ha : after≠[]) :
    (c.rotateAll (before++after)).secret≠(c.rotateAll before).secret := by
  have hlast := rotateAll_secret c (before++after)
  rw [secrets_append,List.getLast?_append_of_ne_nil _ (by simpa using ha)] at hlast
  rw [secrets_append] at hd
  have hdisjoint := (List.nodup_append.mp hd).2.2
  exact (hdisjoint _ (rotateAll_mem c before) _ (List.mem_of_getLast? hlast)).symm

/-- A cookie is good in the epoch of its issue and in no other. -/
theorem accepted_iff (h : Distinct S c (before++after) sourceAddr) :
    accepted S c before after sourceAddr=true ↔ after=[] := by
  rw [accepted,verifyCookie,decide_eq_true_eq]
  constructor
  · intro he
    by_contra ha
    have hold : (c.rotateAll before).secret∈c.secrets (before++after) := by
      rw [secrets_append]
      exact List.mem_append_left _ (rotateAll_mem c before)
    exact rotated_away h.secrets ha (h.tags _ (rotateAll_mem c (before++after)) _ hold he)
  · intro ha
    rw [ha,List.append_nil]

/-- A cookie is good until the second rotation behind its issue, and no longer, exactly
when the rotations behind it are not one. -/
theorem live_epochs_iff (h : Distinct S c (before++after) sourceAddr) :
    (accepted S c before after sourceAddr=true ↔ after.length < 2) ↔ after.length≠1 := by
  rw [accepted_iff h,← List.length_eq_zero_iff]
  omega

end Epochs

end CookieSecret

open CookieSecret

def sampleCookies : CookieSecret := .new (fixed 32 [1]) 1000

def sampleRotations : List Rotation := [(fixed 32 [2],121000),(fixed 32 [3],241000)]

def sampleAddr : Bytes := [192,168,1,1]

theorem sample_distinct : Distinct sampleSuite sampleCookies sampleRotations sampleAddr := by
  have hsecrets : (sampleCookies.secrets sampleRotations).Nodup := by decide +kernel
  have htags : ((sampleCookies.secrets sampleRotations).map (fun k => sampleSuite.blake2sMac k sampleAddr)).Nodup := by
    decide +kernel
  exact ⟨hsecrets,fun k hk k' hk' he => List.inj_on_of_nodup_map htags hk hk' he⟩

theorem live_epochs_sample :
    (accepted sampleSuite sampleCookies [] sampleRotations sampleAddr=true ↔ sampleRotations.length < 2) ↔
      sampleRotations.length≠1 :=
  @live_epochs_iff sampleSuite sampleCookies [] sampleRotations sampleAddr sample_distinct

/-- Behind one rotation the cookie is refused already. -/
theorem overlap_refused :
    Distinct sampleSuite sampleCookies (sampleRotations.take 1) sampleAddr ∧
      accepted sampleSuite sampleCookies [] (sampleRotations.take 1) sampleAddr=false ∧
      ¬(accepted sampleSuite sampleCookies [] (sampleRotations.take 1) sampleAddr=true ↔
        (sampleRotations.take 1).length < 2) := by
  have hrefused : accepted sampleSuite sampleCookies [] (sampleRotations.take 1) sampleAddr=false := by
    decide +kernel
  refine ⟨@distinct_front sampleSuite sampleCookies (sampleRotations.take 1) (sampleRotations.drop 1) sampleAddr
    sample_distinct,hrefused,?_⟩
  rw [hrefused]
  decide

end Bolina.Transport
