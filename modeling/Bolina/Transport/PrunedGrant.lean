import Bolina.State.LedgerCaps
import Bolina.Transport.Dispatch
import Bolina.Transport.GrantVerdict

namespace Bolina.Transport

open Codec State RecordLog GuardedRun KeyedFold

/-- What makes the id live carries this expiry: a commit that takes effect, and a file that is
read back. -/
structure Binds (id : GrantId) (notAfter : UInt64) (n : Node) (x : Io × LedgerOp) : Prop where
  commit : ∀l expiry t,n.ledger=some l → x.2=.on (.call (.commitConsumed id expiry t)) →
    ¬l.Holds (.commit id expiry) → expiry=notAfter
  recover : ∀l expiry,n.ledger=some l → x.2=.on .recover → l.file.isSome → x.1.seek=true → x.1.read=none →
    LastCommit (ledgerFormat.records n.disk.log) id expiry → expiry=notAfter

/-- The id is live with this expiry or not at all. -/
def CachedAs (id : GrantId) (notAfter : UInt64) (c : Caches) : Prop :=
  ∀expiry,c.consumed.lookup id=some expiry → expiry=notAfter

section Ledger

variable {id : GrantId} {notAfter : UInt64}

theorem CachedAs.drop {c : Caches} (h : CachedAs id notAfter c) (now : UInt64) :
    CachedAs id notAfter (c.dropExpired now) := by
  intro expiry hl
  exact h expiry ((lookup_dropExpired c now id expiry).mp hl).1

theorem CachedAs.apply {c : Caches} (h : CachedAs id notAfter c) (r : Record)
    (hr : ∀expiry,r=.commit id expiry → expiry=notAfter) : CachedAs id notAfter (c.apply r) := by
  intro expiry hl
  cases r with
  | commit x e =>
    by_cases hx : id=x
    · subst hx
      have he : e=expiry := by simpa [Caches.apply] using hl
      rw [← he]
      exact hr e rfl
    · apply h expiry
      simpa [Caches.apply,AList.lookup_insert_ne hx] using hl
  | published x =>
    by_cases hx : id=x
    · subst hx
      simp [Caches.apply] at hl
    · apply h expiry
      simpa [Caches.apply,AList.lookup_erase_ne hx] using hl
  | revoke pk e => exact h expiry hl
  | firstReceipt x e => exact h expiry hl

end Ledger

section Check

end Check

end Bolina.Transport
