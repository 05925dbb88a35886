import Bolina.Framework.FixedBytes
import Bolina.Framework.Panic

namespace Bolina.Sync

open Panic

def maxResponseEnvelopes : Nat := 64
def maxResponseBytes : Nat := 1<<<20
def responseHeader : Nat := 34

abbrev Hash := FixedBytes 32

structure ServeItem where
  hash : Hash
  wire : Bytes
  deriving DecidableEq

structure BuildResult where
  count : Nat
  truncated : Bool
  bytesWritten : Nat
  deriving DecidableEq,Repr

/-- The items from some place on: the buffer, the position, the count and the flag.
The lengths of slices are far below a word, so their sums do not overflow. -/
def itemLoop (haveHashes : List Hash) : List ServeItem → Bytes → Nat → Nat → Option (Bytes × Nat × Nat × Bool)
  | [],out,pos,count => some (out,pos,count,false)
  | item::rest,out,pos,count =>
    if haveHashes.any (fun h => h == item.hash) then itemLoop haveHashes rest out pos count
    else
      let need := item.wire.length
      if maxResponseEnvelopes ≤ count ∨ maxResponseBytes < pos+need+1 then some (out,pos,count,true)
      else do
        let out ← copyTo out item.wire pos (pos+need)
        itemLoop haveHashes rest out (pos+need) (count+1)

def buildResponse (out : Bytes) (channelId : Hash) (items : List ServeItem) (haveHashes : List Hash) :
    Option (BuildResult × Bytes) := do
  if out.length < responseHeader then return (⟨0,false,0⟩,out)
  else
    let out ← setAt out 0 1
    let out ← copyTo out channelId.toList 1 33
    let (out,pos,count,truncated) ← itemLoop haveHashes items out responseHeader 0
    let out ← setAt out 33 (UInt8.ofNat count)
    return (⟨count,truncated,pos⟩,out)

/-- The wires of the items that the peer does not have. -/
def wanted (items : List ServeItem) (haveHashes : List Hash) : List Bytes :=
  (items.filter (fun item => !haveHashes.any (fun h => h == item.hash))).map ServeItem.wire

/-- The header and the first wires stand in the buffer, whole and in order, and what
comes behind them is as it was. -/
structure Exact (out : Bytes) (channelId : Hash) (wires : List Bytes) (res : BuildResult) (out' : Bytes) : Prop where
  count : res.count ≤ wires.length
  bytesWritten : res.bytesWritten=responseHeader+(wires.take res.count).flatten.length
  within : res.bytesWritten ≤ out.length
  buffer : out'=1::(channelId.toList++UInt8.ofNat res.count::((wires.take res.count).flatten++out.drop res.bytesWritten))
  countByte : (UInt8.ofNat res.count).toNat=res.count
  truncated : res.truncated=true ↔ res.count < wires.length

/-- Whatever the two limits let in has room in the buffer. -/
def Roomy (wires : List Bytes) (pos count room : Nat) : Prop :=
  ∀n,n ≤ wires.length → count+n ≤ maxResponseEnvelopes → pos+(wires.take n).flatten.length+1 ≤ maxResponseBytes →
    (wires.take n).flatten.length ≤ room

section Loop

variable {wires : List Bytes} {pos count room : Nat}

/-- At a limit nothing more is let in. -/
theorem roomy_full (wire : Bytes) (h : maxResponseEnvelopes ≤ count ∨ maxResponseBytes < pos+wire.length+1) :
    Roomy (wire::wires) pos count room := by
  intro n _ hcount hbytes
  cases n with
  | zero => exact Nat.zero_le _
  | succ n =>
    rw [List.take_succ_cons,List.flatten_cons,List.length_append] at hbytes
    omega

theorem roomy_cons (wire : Bytes) (hcount : count < maxResponseEnvelopes) (hbytes : pos+wire.length+1 ≤ maxResponseBytes) :
    Roomy (wire::wires) pos count room ↔
      wire.length ≤ room ∧ Roomy wires (pos+wire.length) (count+1) (room-wire.length) := by
  constructor
  · intro h
    have hone := h 1 (by simp) hcount (by simpa using hbytes)
    rw [List.take_succ_cons,List.take_zero,List.flatten_cons,List.flatten_nil,List.append_nil] at hone
    refine ⟨hone,?_⟩
    intro n hn hc hb
    have hmore := h (n+1) (Nat.succ_le_succ hn) (by omega) (by
      rw [List.take_succ_cons,List.flatten_cons,List.length_append]
      omega)
    rw [List.take_succ_cons,List.flatten_cons,List.length_append] at hmore
    omega
  · intro hw
    obtain ⟨hone,h⟩ := hw
    intro n hn hc hb
    cases n with
    | zero => exact Nat.zero_le _
    | succ n =>
      rw [List.take_succ_cons,List.flatten_cons,List.length_append] at hb ⊢
      have hmore := h n (Nat.le_of_succ_le_succ hn) (by omega) (by omega)
      omega

/-- The loop writes the first wires behind what is written, or runs out of the buffer. -/
theorem itemLoop_spec (haveHashes : List Hash) (items : List ServeItem) (written rest : Bytes) (count : Nat)
    (hcount : count ≤ maxResponseEnvelopes) :
    (Roomy (wanted items haveHashes) written.length count rest.length →
      ∃n,n ≤ (wanted items haveHashes).length ∧ count+n ≤ maxResponseEnvelopes ∧
        ((wanted items haveHashes).take n).flatten.length ≤ rest.length ∧
        itemLoop haveHashes items (written++rest) written.length count=
          some ((written++((wanted items haveHashes).take n).flatten)++
              rest.drop ((wanted items haveHashes).take n).flatten.length,
            written.length+((wanted items haveHashes).take n).flatten.length,count+n,
            decide (n < (wanted items haveHashes).length))) ∧
    (¬Roomy (wanted items haveHashes) written.length count rest.length →
      itemLoop haveHashes items (written++rest) written.length count=none) := by
  induction items generalizing written rest count with
  | nil =>
    refine ⟨fun _ => ⟨0,le_rfl,hcount,Nat.zero_le _,?_⟩,fun hno => absurd ?_ hno⟩
    · simp [itemLoop,wanted]
    · intro n hn _ _
      have hz : n=0 := Nat.le_zero.mp hn
      rw [hz,List.take_zero]
      exact Nat.zero_le _
  | cons item items ih =>
    by_cases hhas : haveHashes.any (fun h => h == item.hash)=true
    · have hsame : wanted (item::items) haveHashes=wanted items haveHashes := by
        rw [wanted,List.filter_cons_of_neg (by simp only [hhas]; decide),wanted]
      rw [hsame,itemLoop,if_pos hhas]
      exact ih written rest count hcount
    · have hnext : wanted (item::items) haveHashes=item.wire::wanted items haveHashes := by
        rw [Bool.not_eq_true] at hhas
        rw [wanted,List.filter_cons_of_pos (by simp only [hhas]; decide),List.map_cons,wanted]
      rw [hnext,itemLoop,if_neg hhas]
      dsimp only
      by_cases hfull : maxResponseEnvelopes ≤ count ∨ maxResponseBytes < written.length+item.wire.length+1
      · rw [if_pos hfull]
        refine ⟨fun _ => ⟨0,Nat.zero_le _,hcount,Nat.zero_le _,?_⟩,fun hno => absurd (roomy_full item.wire hfull) hno⟩
        simp
      · rw [if_neg hfull]
        obtain ⟨hc,hb⟩ := not_or.mp hfull
        rw [roomy_cons item.wire (not_le.mp hc) (not_lt.mp hb)]
        by_cases hroom : item.wire.length ≤ rest.length
        · have hcopy := copyTo_next written rest rfl rfl hroom
          have hlen : (written++item.wire).length=written.length+item.wire.length := List.length_append
          have hrest : (rest.drop item.wire.length).length=rest.length-item.wire.length := List.length_drop
          obtain ⟨hyes,hno⟩ := ih (written++item.wire) (rest.drop item.wire.length) (count+1) (by omega)
          rw [hlen,hrest] at hyes hno
          rw [hcopy]
          simp only [Option.bind_eq_bind,Option.bind_some]
          refine ⟨fun hw => ?_,fun hw => hno (fun hr => hw ⟨hroom,hr⟩)⟩
          obtain ⟨n,hn,hcn,hfit,hrun⟩ := hyes hw.2
          refine ⟨n+1,Nat.succ_le_succ hn,by omega,?_,?_⟩
          · rw [List.take_succ_cons,List.flatten_cons,List.length_append]
            omega
          · rw [hrun,List.take_succ_cons,List.flatten_cons,List.length_append,List.length_cons,List.drop_drop,
              List.append_assoc written,Nat.add_assoc written.length,Nat.add_assoc count,Nat.add_comm 1 n]
            simp only [Nat.add_lt_add_iff_right]
        · have hcopy : copyTo (written++rest) item.wire written.length (written.length+item.wire.length)=none := by
            have hout : ¬(written.length ≤ written.length+item.wire.length ∧
                written.length+item.wire.length ≤ (written++rest).length) := by
              rw [List.length_append]
              omega
            rw [copyTo,range,if_neg hout]
            rfl
          rw [hcopy]
          exact ⟨fun hw => absurd hw.1 hroom,fun _ => rfl⟩

end Loop

theorem setAt_mid (front back : Bytes) (b v : UInt8) {i : Nat} (hi : i=front.length) :
    setAt (front++b::back) i v=some (front++v::back) := by
  have hlt : i < (front++b::back).length := by
    rw [List.length_append,List.length_cons]
    omega
  rw [setAt,if_pos hlt,hi,List.set_append_right _ _ le_rfl,Nat.sub_self,List.set_cons_zero]

/-- A buffer that has room for the header. -/
theorem header_split (out : Bytes) (h : responseHeader ≤ out.length) :
    ∃b₀ mid b₁ rest,out=b₀::(mid++b₁::rest) ∧ mid.length=32 ∧ rest=out.drop responseHeader := by
  rw [responseHeader] at *
  obtain ⟨b₀,tail,rfl⟩ := List.exists_cons_of_length_pos (by omega : 0 < out.length)
  rw [List.length_cons] at h
  have hlt : 32 < tail.length := by omega
  refine ⟨b₀,tail.take 32,tail[32],tail.drop 33,?_,?_,rfl⟩
  · rw [← List.drop_eq_getElem_cons hlt,List.take_append_drop]
  · rw [List.length_take]
    omega

/-- The response of a buffer with room for the header: what the loop leaves, with
the count set behind it. -/
theorem buildResponse_eq {b₀ b₁ : UInt8} {mid rest : Bytes} (hmid : mid.length=32) (channelId : Hash)
    (items : List ServeItem) (haveHashes : List Hash) :
    buildResponse (b₀::(mid++b₁::rest)) channelId items haveHashes=
      (itemLoop haveHashes items ((1::(channelId.toList++[b₁]))++rest) responseHeader 0).bind (fun r =>
        (setAt r.1 33 (UInt8.ofNat r.2.2.1)).map (fun out => (⟨r.2.2.1,r.2.2.2,r.2.1⟩,out))) := by
  have hlen : ¬(b₀::(mid++b₁::rest)).length < responseHeader := by
    rw [List.length_cons,List.length_append,List.length_cons,hmid,responseHeader]
    omega
  have hchannel : channelId.toList.length=32 := channelId.toList_length
  have hversion : setAt (b₀::(mid++b₁::rest)) 0 1=some ([1]++(mid++b₁::rest)) := setAt_mid [] _ b₀ 1 rfl
  have hcopy : copyTo ([1]++(mid++b₁::rest)) channelId.toList 1 33=
      some ((1::(channelId.toList++[b₁]))++rest) := by
    have hfit : channelId.toList.length ≤ (mid++b₁::rest).length := by
      rw [List.length_append,hmid,hchannel]
      omega
    have hnext : copyTo ([1]++(mid++b₁::rest)) channelId.toList 1 33=
        some (([1]++channelId.toList)++(mid++b₁::rest).drop channelId.toList.length) :=
      copyTo_next [1] _ rfl (by rw [hchannel]) hfit
    rw [hnext,hchannel,List.drop_left' hmid]
    simp
  rw [buildResponse,if_neg hlen,hversion]
  simp only [Option.bind_eq_bind,Option.bind_some]
  rw [hcopy,Option.bind_some]
  congr 1
  funext r
  cases setAt r.1 33 (UInt8.ofNat r.2.2.1) <;> rfl

theorem build_response_exact_iff (out : Bytes) (channelId : Hash) (items : List ServeItem) (haveHashes : List Hash) :
    (∃res out',buildResponse out channelId items haveHashes=some (res,out') ∧
      Exact out channelId (wanted items haveHashes) res out') ↔
    responseHeader ≤ out.length ∧
      Roomy (wanted items haveHashes) responseHeader 0 (out.length-responseHeader) := by
  by_cases hlen : responseHeader ≤ out.length
  · obtain ⟨b₀,mid,b₁,rest,rfl,hmid,hrest⟩ := header_split out hlen
    have hwritten : (1::(channelId.toList++[b₁])).length=responseHeader := by
      rw [List.length_cons,List.length_append,channelId.toList_length]
      rfl
    have hroom : (b₀::(mid++b₁::rest)).length-responseHeader=rest.length := by
      have hl := congrArg List.length hrest
      rw [List.length_drop] at hl
      exact hl.symm
    have hback (m : Nat) : (b₀::(mid++b₁::rest)).drop (responseHeader+m)=rest.drop m := by
      rw [← List.drop_drop,← hrest]
    have hall : (b₀::(mid++b₁::rest)).length=responseHeader+rest.length := by omega
    obtain ⟨hyes,hno⟩ := itemLoop_spec haveHashes items (1::(channelId.toList++[b₁])) rest 0 (Nat.zero_le _)
    rw [hwritten] at hyes hno
    rw [hroom,buildResponse_eq hmid]
    by_cases hr : Roomy (wanted items haveHashes) responseHeader 0 rest.length
    · refine iff_of_true ?_ ⟨hlen,hr⟩
      obtain ⟨n,hn,hcount,hfit,hrun⟩ := hyes hr
      rw [Nat.zero_add] at hcount hrun
      rw [hrun,Option.bind_some]
      dsimp only
      have hset := setAt_mid (1::channelId.toList) (((wanted items haveHashes).take n).flatten++
        rest.drop ((wanted items haveHashes).take n).flatten.length) b₁ (UInt8.ofNat n) (i := 33)
        (by rw [List.length_cons,channelId.toList_length])
      have hshape : (1::(channelId.toList++[b₁])++((wanted items haveHashes).take n).flatten)++
          rest.drop ((wanted items haveHashes).take n).flatten.length=
          (1::channelId.toList)++b₁::(((wanted items haveHashes).take n).flatten++
            rest.drop ((wanted items haveHashes).take n).flatten.length) := by simp
      rw [hshape,hset]
      refine ⟨_,_,rfl,hn,rfl,?_,?_,?_,?_⟩
      · rw [hall]
        exact Nat.add_le_add_left hfit _
      · dsimp only
        rw [hback]
        rfl
      · have hsmall : n < UInt8.size := lt_of_le_of_lt hcount (by decide)
        exact UInt8.toNat_ofNat_of_lt' hsmall
      · exact decide_eq_true_iff
    · refine iff_of_false ?_ (fun hw => hr hw.2)
      rw [hno hr]
      intro hw
      obtain ⟨res,out',hnone,_⟩ := hw
      cases hnone
  · refine iff_of_false ?_ (fun hw => hlen hw.1)
    intro hw
    obtain ⟨res,out',hrun,hexact⟩ := hw
    rw [buildResponse,if_pos (not_le.mp hlen)] at hrun
    obtain ⟨rfl,rfl⟩ := Prod.mk.inj (Option.some.inj hrun)
    have hwithin := hexact.bytesWritten
    rw [responseHeader] at hwithin
    dsimp only at hwithin
    omega

/-- An item that is within both limits and not within the buffer, and a buffer
without room for the header. -/
theorem short_buffer_overrun :
    buildResponse (List.replicate 40 0) (fixed 32 []) [⟨fixed 32 [1],List.replicate 10 7⟩] []=none ∧
    buildResponse (List.replicate 33 0) (fixed 32 []) [⟨fixed 32 [1],List.replicate 10 7⟩] []=
      some (⟨0,false,0⟩,List.replicate 33 0) := by
  decide

end Bolina.Sync
