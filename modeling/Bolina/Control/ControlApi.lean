import Bolina.Transport.Dispatch

namespace Bolina.Control

open Transport Intent

def ringCap : Nat := 256

/-- One class for every reason to reject a message on the wire path. -/
inductive WireRejectClass where
  | Binding
  | Transport
  | Parse
  | VBadVersion
  | VBadEnvelopeBinding
  | VBadSignature
  | VMalformedKey
  | VBadApproverCert
  | VBadSubjectCert
  | VApproverRevoked
  | VApproverOutOfScope
  | VSubjectRevoked
  | VSubjectOutOfScope
  | VWrongExecutor
  | VWrongSubject
  | VNoMatchingIntent
  | VWrongResource
  | VActionDigestMismatch
  | VExpired
  | VAlreadyConsumed
  | VWrongBodyType
  | VSeqWindowStale
  | VEquivocation
  | VUnknownParents
  | VBadControlBody
  | DBadEnvelope
  | DBadBody
  | DUnsupportedBody
  | DNoPendingIntent
  | DUnknownSender
  | DActionTooLarge
  | DDiskError
  | RMalformedCanonical
  | RSetFull
  | RAliasPoolFull
  | RDuplicateEntry
  | RUnknownResource
  | RAmbiguousResource
  | RForeignExecutor
  | RBufferTooSmall
  | RIntentTableFull
  | RIntentDuplicateId
  | RIntentResourceHeld
  | RIntentNotPending
  | HandshakeFull
  deriving DecidableEq,Repr

namespace WireRejectClass

def count : Nat := 45

def index : WireRejectClass → Nat
  | Binding => 0
  | Transport => 1
  | Parse => 2
  | VBadVersion => 3
  | VBadEnvelopeBinding => 4
  | VBadSignature => 5
  | VMalformedKey => 6
  | VBadApproverCert => 7
  | VBadSubjectCert => 8
  | VApproverRevoked => 9
  | VApproverOutOfScope => 10
  | VSubjectRevoked => 11
  | VSubjectOutOfScope => 12
  | VWrongExecutor => 13
  | VWrongSubject => 14
  | VNoMatchingIntent => 15
  | VWrongResource => 16
  | VActionDigestMismatch => 17
  | VExpired => 18
  | VAlreadyConsumed => 19
  | VWrongBodyType => 20
  | VSeqWindowStale => 21
  | VEquivocation => 22
  | VUnknownParents => 23
  | VBadControlBody => 24
  | DBadEnvelope => 25
  | DBadBody => 26
  | DUnsupportedBody => 27
  | DNoPendingIntent => 28
  | DUnknownSender => 29
  | DActionTooLarge => 30
  | DDiskError => 31
  | RMalformedCanonical => 32
  | RSetFull => 33
  | RAliasPoolFull => 34
  | RDuplicateEntry => 35
  | RUnknownResource => 36
  | RAmbiguousResource => 37
  | RForeignExecutor => 38
  | RBufferTooSmall => 39
  | RIntentTableFull => 40
  | RIntentDuplicateId => 41
  | RIntentResourceHeld => 42
  | RIntentNotPending => 43
  | HandshakeFull => 44

def ofVerify : VerifyError → WireRejectClass
  | .BadVersion => VBadVersion
  | .BadEnvelopeBinding => VBadEnvelopeBinding
  | .BadSignature => VBadSignature
  | .MalformedKey => VMalformedKey
  | .BadApproverCert => VBadApproverCert
  | .BadSubjectCert => VBadSubjectCert
  | .ApproverRevoked => VApproverRevoked
  | .ApproverOutOfScope => VApproverOutOfScope
  | .SubjectRevoked => VSubjectRevoked
  | .SubjectOutOfScope => VSubjectOutOfScope
  | .WrongExecutor => VWrongExecutor
  | .WrongSubject => VWrongSubject
  | .NoMatchingIntent => VNoMatchingIntent
  | .WrongResource => VWrongResource
  | .ActionDigestMismatch => VActionDigestMismatch
  | .Expired => VExpired
  | .AlreadyConsumed => VAlreadyConsumed
  | .WrongBodyType => VWrongBodyType
  | .SeqWindowStale => VSeqWindowStale
  | .Equivocation => VEquivocation
  | .UnknownParents => VUnknownParents
  | .BadControlBody => VBadControlBody

def ofIntent : IntentError → WireRejectClass
  | .TableFull => RIntentTableFull
  | .DuplicateIntentId => RIntentDuplicateId
  | .ResourceHeld => RIntentResourceHeld
  | .NotPending => RIntentNotPending

def ofResolve : ResolveError → WireRejectClass
  | .MalformedCanonical => RMalformedCanonical
  | .SetFull => RSetFull
  | .AliasPoolFull => RAliasPoolFull
  | .DuplicateEntry => RDuplicateEntry
  | .UnknownResource => RUnknownResource
  | .AmbiguousResource => RAmbiguousResource
  | .ForeignExecutor => RForeignExecutor
  | .BufferTooSmall => RBufferTooSmall
  | .Intent e => ofIntent e

def ofDispatch : DispatchError → WireRejectClass
  | .BadEnvelope => DBadEnvelope
  | .BadBody => DBadBody
  | .UnsupportedBody => DUnsupportedBody
  | .NoPendingIntent => DNoPendingIntent
  | .UnknownSender => DUnknownSender
  | .ActionTooLarge => DActionTooLarge
  | .DiskError => DDiskError
  | .Verify e => ofVerify e
  | .Resolve e => ofResolve e

theorem index_lt (c : WireRejectClass) : c.index<count := by
  cases c <;> decide

/-- Every class has a counter of its own. -/
theorem index_injective : Function.Injective index := by
  have hi : ∀c : WireRejectClass,ofNat c.index=c := by
    intro c
    cases c <;> rfl
  intro a b h
  rw [← hi a,h,hi b]

end WireRejectClass

/-- The counters of the source have 64 bits; no run counts that far. -/
structure WireCounters where
  admissionsTotal : Nat
  rejects : List.Vector Nat WireRejectClass.count
  deriving DecidableEq

def WireCounters.new : WireCounters := ⟨0,List.Vector.replicate _ 0⟩

def WireCounters.bump (w : WireCounters) (c : WireRejectClass) : WireCounters :=
  let i : Fin WireRejectClass.count := ⟨c.index,c.index_lt⟩
  { w with rejects := w.rejects.set i (w.rejects.get i+1) }

inductive EventTag where
  | IntentAdmitted
  | IntentExpired
  | GrantExecuted
  | EffectRefused
  | RefusalApplied
  | ControlApplied
  deriving DecidableEq,Repr

/-- The last events with their sequence numbers, oldest first. -/
structure EventRing where
  events : List (Nat × EventTag)
  nextSeq : Nat
  bounded : events.length ≤ ringCap
  deriving DecidableEq

def EventRing.new : EventRing := ⟨[],1,Nat.zero_le _⟩

def EventRing.publish (r : EventRing) (tag : EventTag) : EventRing where
  events := (if r.events.length=ringCap then r.events.drop 1 else r.events)++[(r.nextSeq,tag)]
  nextSeq := r.nextSeq+1
  bounded := by
    have hb := r.bounded
    have hc : 0 < ringCap := by decide
    rw [List.length_append,List.length_singleton]
    split
    · rw [List.length_drop]
      omega
    · omega

theorem publish_ne (r : EventRing) (tag : EventTag) : r.publish tag≠r := by
  intro h
  have hs : r.nextSeq+1=r.nextSeq := congrArg EventRing.nextSeq h
  omega

end Bolina.Control
