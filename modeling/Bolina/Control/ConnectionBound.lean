import Bolina.Control.Clients
import Bolina.Control.Fragments

namespace Bolina.Control

open ListSearch Utf8

/-- The most that a connection should ever hold. -/
def openLimit : Nat := headerCap+bodyCap+readSize

/-- A client behind reads that all came before the deadline. -/
def ClientSlot.fed (s : ClientSlot) (reads : List Bytes) : ClientSlot :=
  reads.foldl (fun s bytes => (s.pass ⟨false,.data bytes,none⟩).1) s

/-- Neither closed nor answered. -/
def Connection.Open (c : Connection) : Prop := c.state=.ReadingHeaders ∨ c.state=.ReadingBody

/-- No read panics, and no read into an open connection takes its buffer above the limit. -/
structure BoundedRun (reads : List Bytes) : Prop where
  sums : ∀front back,reads=front++back → ClientSlot.fed (.live .new) front≠.stopped
  size : ∀front bytes back,reads=front++bytes::back → ∀c,ClientSlot.fed (.live .new) front=.live c → c.Open →
    (c.buf++bytes).length ≤ openLimit

/-- The first length line of the head is no number, or the head no text. -/
def Illegible (b : Bytes) : Prop :=
  ∃pos e,findSub terminator b=some pos ∧ parseContentLength (b.take (pos+4))=.error e

/-- The buffer ends a connection: it is refused for its size or its length line, or
answered, as the body that it declares is there. -/
def Finishes (b : Bytes) : Prop := Slow b ∨ Illegible b ∨ Covered b

/-- The head is complete and declares more than is there. -/
def Waits (b : Bytes) : Prop :=
  ∃pos len,findSub terminator b=some pos ∧ parseContentLength (b.take (pos+4))=.ok (some len) ∧
    b.length < pos+4+len ∧ pos+4+len < 2^64

/-- Every cut of the reads is an incomplete head that the size guard lets pass. -/
def AllQuiet (reads : List Bytes) : Prop := ∀front back,reads=front++back → Quiet front.flatten

/-- The first cut that is not quiet is there, and is such. -/
def Turned (P : Bytes → Prop) (reads : List Bytes) : Prop :=
  ∃front back,reads=front++back ∧ (∀a b,front=a++b → b≠[] → Quiet a.flatten) ∧ P front.flatten

/-- No head overflows, and a cut above the limit comes behind one that ended the connection. -/
structure Modest (reads : List Bytes) : Prop where
  sums : ¬Turned Overflows reads
  size : ∀front bytes back,reads=front++bytes::back → ¬Turned Finishes front → (front++[bytes]).flatten.length ≤ openLimit

section Heads

variable {b : Bytes} {pos : Nat}

theorem quiet_none (h : Quiet b) : findSub terminator b=none := h.2

/-- What a complete head is, by what it makes of the connection. -/
theorem headDone_cases (h : findSub terminator b=some pos) :
    (Illegible b ∧ ∃e,headDone b (pos+4)=some (.error e)) ∨
      (Overflows b ∧ headDone b (pos+4)=none) ∨
      (Waits b ∧ ∃len,headDone b (pos+4)=some (.ok ⟨.ReadingBody,b,some len⟩)) ∨
      (Covered b ∧ ∃declared,headDone b (pos+4)=some (.ok ⟨.Writing,b,declared⟩)) := by
  rw [headDone]
  cases hr : parseContentLength (b.take (pos+4)) with
  | error e => exact .inl ⟨⟨pos,e,h,hr⟩,e,rfl⟩
  | ok declared =>
    cases declared with
    | none => exact .inr (.inr (.inr ⟨⟨pos,none,h,hr,by simp⟩,none,rfl⟩))
    | some len =>
      dsimp only
      by_cases hbig : 2^64 ≤ pos+4+len
      · rw [if_pos hbig]
        exact .inr (.inl ⟨⟨pos,len,h,hr,hbig⟩,rfl⟩)
      · rw [if_neg hbig]
        by_cases hshort : b.length < pos+4+len
        · rw [if_pos hshort]
          exact .inr (.inr (.inl ⟨⟨pos,len,h,hr,hshort,by omega⟩,len,rfl⟩))
        · rw [if_neg hshort]
          refine .inr (.inr (.inr ⟨⟨pos,some len,h,hr,?_⟩,some len,rfl⟩))
          intro l hl
          cases hl
          omega

theorem waits_head (h : Waits b) : ∃pos,findSub terminator b=some pos := by
  obtain ⟨pos,_,hpos,_⟩ := h
  exact ⟨pos,hpos⟩

theorem not_quiet_of_head (h : ∃pos,findSub terminator b=some pos) : ¬Quiet b := by
  intro hq
  obtain ⟨pos,hpos⟩ := h
  rw [quiet_none hq] at hpos
  cases hpos

theorem finishes_not_quiet (h : Finishes b) : ¬Quiet b := by
  rcases h with hs | hi | hc
  · intro hq
    exact hq.1 hs
  · obtain ⟨pos,_,hpos,_⟩ := hi
    exact not_quiet_of_head ⟨pos,hpos⟩
  · exact not_quiet_of_head (covered_head hc)

/-- A head that waits does not end the connection. -/
theorem waits_not_finishes (h : Waits b) : ¬Finishes b := by
  obtain ⟨pos,len,hpos,hread,hshort,_⟩ := h
  intro he
  rcases he with hs | hi | hc
  · exact not_slow hpos hs
  · obtain ⟨p,e,hp,hr⟩ := hi
    rw [hpos] at hp
    cases hp
    rw [hread] at hr
    cases hr
  · obtain ⟨p,declared,hp,hr,hfit⟩ := hc
    rw [hpos] at hp
    cases hp
    rw [hread] at hr
    cases hr
    have hle := (hfit len rfl).2
    omega

theorem overflows_not_finishes (h : Overflows b) : ¬Finishes b := by
  obtain ⟨pos,len,hpos,hread,hbig⟩ := h
  intro he
  rcases he with hs | hi | hc
  · exact not_slow hpos hs
  · obtain ⟨p,e,hp,hr⟩ := hi
    rw [hpos] at hp
    cases hp
    rw [hread] at hr
    cases hr
  · obtain ⟨p,declared,hp,hr,hfit⟩ := hc
    rw [hpos] at hp
    cases hp
    rw [hread] at hr
    cases hr
    have hlt := (hfit len rfl).1
    omega

end Heads

section Turns

variable {P Q : Bytes → Prop} {reads : List Bytes} {bytes : Bytes}

theorem turned_mono {front back : List Bytes} (h : Turned P front) : Turned P (front++back) := by
  obtain ⟨a,b,hfront,hquiet,hp⟩ := h
  exact ⟨a,b++back,by rw [hfront,List.append_assoc],hquiet,hp⟩

/-- A proper front of reads with one more is a front of the reads. -/
theorem front_snoc {a b : List Bytes} (h : reads++[bytes]=a++b) (hb : b≠[]) : ∃b',reads=a++b' := by
  obtain ⟨init,last,hl⟩ := List.eq_nil_or_concat b |>.resolve_left hb
  refine ⟨init,?_⟩
  rw [hl,List.concat_eq_append,← List.append_assoc] at h
  exact (List.append_inj' h rfl).1

theorem turned_now (h : AllQuiet reads) (hp : P (reads++[bytes]).flatten) : Turned P (reads++[bytes]) := by
  refine ⟨reads++[bytes],[],by simp,?_,hp⟩
  intro a b hab hb
  obtain ⟨b',hb'⟩ := front_snoc hab hb
  exact h a b' hb'

theorem allQuiet_snoc (h : AllQuiet reads) (hq : Quiet (reads++[bytes]).flatten) : AllQuiet (reads++[bytes]) := by
  intro front back hfront
  by_cases hb : back=[]
  · rw [hb,List.append_nil] at hfront
    rw [← hfront]
    exact hq
  · obtain ⟨b',hb'⟩ := front_snoc hfront hb
    exact h front b' hb'

theorem turned_not_allQuiet (hP : ∀b,P b → ¬Quiet b) (h : Turned P reads) : ¬AllQuiet reads := by
  obtain ⟨front,back,hreads,_,hp⟩ := h
  intro hall
  exact hP _ hp (hall front back hreads)

/-- There is one turn only. -/
theorem turned_both (hP : ∀b,P b → ¬Quiet b) (hQ : ∀b,Q b → ¬Quiet b) (h : Turned P reads) (h' : Turned Q reads) :
    ∃b,P b ∧ Q b := by
  obtain ⟨front,back,hreads,hquiet,hp⟩ := h
  obtain ⟨front',back',hreads',hquiet',hq⟩ := h'
  rw [hreads,List.append_eq_append_iff] at hreads'
  rcases hreads' with hlong | hlong
  · obtain ⟨mid,hmid,_⟩ := hlong
    by_cases hnil : mid=[]
    · rw [hnil,List.append_nil] at hmid
      exact ⟨front.flatten,hp,by rw [← hmid]; exact hq⟩
    · exact absurd (hquiet' front mid hmid hnil) (hP _ hp)
  · obtain ⟨mid,hmid,_⟩ := hlong
    by_cases hnil : mid=[]
    · rw [hnil,List.append_nil] at hmid
      exact ⟨front.flatten,hp,by rw [hmid]; exact hq⟩
    · exact absurd (hquiet front' mid hmid hnil) (hQ _ hq)

end Turns

/-- Answered or closed. -/
def ClientSlot.Shut (s : ClientSlot) : Prop := s≠.stopped ∧ ∀c,s=.live c → c.state=.Closing

/-- What a client is behind reads, by their cuts alone. -/
inductive Phase (reads : List Bytes) : ClientSlot → Prop where
  | head (h : AllQuiet reads) : Phase reads (reading reads.flatten)
  | body (h : Turned Waits reads) (len : Nat) : Phase reads (.live ⟨.ReadingBody,reads.flatten,some len⟩)
  | shut (h : Turned Finishes reads) (s : ClientSlot) (hs : s.Shut) : Phase reads s
  | stopped (h : Turned Overflows reads) : Phase reads .stopped

section Run

variable {reads : List Bytes} {bytes : Bytes} {s : ClientSlot}

theorem fed_snoc (s : ClientSlot) (reads : List Bytes) (bytes : Bytes) :
    s.fed (reads++[bytes])=((s.fed reads).pass ⟨false,.data bytes,none⟩).1 := by
  rw [ClientSlot.fed,List.foldl_append]
  rfl

theorem shut_pass (h : s.Shut) : (s.pass ⟨false,.data bytes,none⟩).1.Shut := by
  cases s with
  | stopped => exact absurd rfl h.1
  | removed => exact ⟨by simp [ClientSlot.pass],by simp [ClientSlot.pass]⟩
  | live c =>
    have hc := h.2 c rfl
    have hpoll : c.pollReadable false (.data bytes)=some (.ok { c with buf := c.buf++bytes }) :=
      poll_behind (by rw [hc]; simp)
    have hgone : ((ClientSlot.live c).pass ⟨false,.data bytes,none⟩).1=.removed := by
      simp [ClientSlot.pass,hpoll,hc]
    rw [hgone]
    exact ⟨by simp,by simp⟩

/-- The read of a head: it goes on, or turns. -/
theorem head_phase (h : AllQuiet reads) :
    Phase (reads++[bytes]) ((reading reads.flatten).pass ⟨false,.data bytes,none⟩).1 := by
  have hflat : (reads++[bytes]).flatten=reads.flatten++bytes := by simp
  by_cases hq : Quiet (reads.flatten++bytes)
  · rw [pass_quiet rfl rfl hq,← hflat]
    exact .head (allQuiet_snoc h (by rw [hflat]; exact hq))
  · cases hterm : findSub terminator (reads.flatten++bytes) with
    | none =>
      have hslow : Slow (reads.flatten++bytes) := by
        by_contra hno
        exact hq ⟨hno,hterm⟩
      have hpoll : Connection.pollReadable ⟨.ReadingHeaders,reads.flatten,none⟩ false (.data bytes)=
          some (.error .Slowloris) := poll_slow rfl hslow
      have hgone : ((reading reads.flatten).pass ⟨false,.data bytes,none⟩).1=.removed := by
        simp [reading,ClientSlot.pass,hpoll]
      rw [hgone]
      exact .shut (turned_now h (.inl (by rw [hflat]; exact hslow))) _ ⟨by simp,by simp⟩
    | some pos =>
      have hpoll : Connection.pollReadable ⟨.ReadingHeaders,reads.flatten,none⟩ false (.data bytes)=
          headDone (reads.flatten++bytes) (pos+4) := poll_head rfl hterm
      rcases headDone_cases hterm with hi | ho | hw | hc
      · obtain ⟨hi,e,hdone⟩ := hi
        have hgone : ((reading reads.flatten).pass ⟨false,.data bytes,none⟩).1=.removed := by
          simp [reading,ClientSlot.pass,hpoll,hdone]
        rw [hgone]
        exact .shut (turned_now h (.inr (.inl (by rw [hflat]; exact hi)))) _ ⟨by simp,by simp⟩
      · obtain ⟨ho,hdone⟩ := ho
        have hgone : ((reading reads.flatten).pass ⟨false,.data bytes,none⟩).1=.stopped := by
          simp [reading,ClientSlot.pass,hpoll,hdone]
        rw [hgone]
        exact .stopped (turned_now h (by rw [hflat]; exact ho))
      · obtain ⟨hw,len,hdone⟩ := hw
        have hwait : ((reading reads.flatten).pass ⟨false,.data bytes,none⟩).1=
            .live ⟨.ReadingBody,(reads++[bytes]).flatten,some len⟩ := by
          rw [hflat]
          simp [reading,ClientSlot.pass,hpoll,hdone]
        rw [hwait]
        exact .body (turned_now h (by rw [hflat]; exact hw)) len
      · obtain ⟨hc,declared,hdone⟩ := hc
        have hanswer : ((reading reads.flatten).pass ⟨false,.data bytes,none⟩).1=
            .live ⟨.Closing,reads.flatten++bytes,declared⟩ := by
          simp [reading,ClientSlot.pass,hpoll,hdone]
        rw [hanswer]
        refine .shut (turned_now h (.inr (.inr (by rw [hflat]; exact hc)))) _ ⟨by simp,?_⟩
        intro c hlive
        cases hlive
        rfl

theorem phase_step (h : Phase reads s) : Phase (reads++[bytes]) (s.pass ⟨false,.data bytes,none⟩).1 := by
  cases h with
  | head h => exact head_phase h
  | body h len =>
    have hpoll : Connection.pollReadable ⟨.ReadingBody,reads.flatten,some len⟩ false (.data bytes)=
        some (.ok ⟨.ReadingBody,reads.flatten++bytes,some len⟩) := poll_behind (by simp)
    have hwait : ((ClientSlot.live ⟨.ReadingBody,reads.flatten,some len⟩).pass ⟨false,.data bytes,none⟩).1=
        .live ⟨.ReadingBody,(reads++[bytes]).flatten,some len⟩ := by
      have hflat : (reads++[bytes]).flatten=reads.flatten++bytes := by simp
      rw [hflat]
      simp [ClientSlot.pass,hpoll]
    rw [hwait]
    exact .body (turned_mono h) len
  | shut h s hs => exact .shut (turned_mono h) _ (shut_pass hs)
  | stopped h => exact .stopped (turned_mono h)

theorem phase_run (reads : List Bytes) : Phase reads (ClientSlot.fed (.live .new) reads) := by
  induction reads using List.reverseRecOn with
  | nil =>
    have hall : AllQuiet [] := by
      intro front back hfront
      rw [(List.append_eq_nil_iff.mp hfront.symm).1]
      exact quiet_nil
    exact .head hall
  | append_singleton reads bytes ih =>
    rw [fed_snoc]
    exact phase_step ih

theorem fed_stopped_iff (reads : List Bytes) : ClientSlot.fed (.live .new) reads=.stopped ↔ Turned Overflows reads := by
  have hphase := phase_run reads
  generalize ClientSlot.fed (.live .new) reads=s at hphase
  have hover : ∀b,Overflows b → ¬Quiet b := fun b hb => not_quiet_of_head (overflows_head hb)
  cases hphase with
  | head h =>
    constructor
    · intro he
      cases he
    · intro ht
      exact absurd h (turned_not_allQuiet hover ht)
  | body h len =>
    constructor
    · intro he
      cases he
    · intro ht
      obtain ⟨b,hw,ho⟩ := turned_both (fun b hb => not_quiet_of_head (waits_head hb)) hover h ht
      obtain ⟨pos,l,hpos,hread,_,hlt⟩ := hw
      obtain ⟨p,l',hp,hr,hbig⟩ := ho
      rw [hpos] at hp
      cases hp
      rw [hread] at hr
      cases hr
      omega
  | shut h s hs =>
    constructor
    · intro he
      exact absurd he hs.1
    · intro ht
      obtain ⟨b,he,ho⟩ := turned_both (fun b hb => finishes_not_quiet hb) hover h ht
      exact absurd he (overflows_not_finishes ho)
  | stopped h => exact ⟨fun _ => h,fun _ => rfl⟩

/-- While no cut has ended it, a client that has not panicked is open and holds what was read. -/
theorem fed_open (hs : ¬Turned Overflows reads) (he : ¬Turned Finishes reads) :
    ∃c,ClientSlot.fed (.live .new) reads=.live c ∧ c.Open ∧ c.buf=reads.flatten := by
  have hphase := phase_run reads
  generalize ClientSlot.fed (.live .new) reads=s at hphase
  cases hphase with
  | head h => exact ⟨_,rfl,.inl rfl,rfl⟩
  | body h len => exact ⟨_,rfl,.inr rfl,rfl⟩
  | shut h => exact absurd h he
  | stopped h => exact absurd h hs

theorem open_fed {c : Connection} (hc : ClientSlot.fed (.live .new) reads=.live c) (ho : c.Open) :
    ¬Turned Finishes reads ∧ c.buf=reads.flatten := by
  have hphase := phase_run reads
  rw [hc] at hphase
  cases hphase with
  | head h => exact ⟨fun ht => turned_not_allQuiet (fun b hb => finishes_not_quiet hb) ht h,rfl⟩
  | body h len =>
    refine ⟨?_,rfl⟩
    intro ht
    obtain ⟨b,hw,he⟩ := turned_both (fun b hb => not_quiet_of_head (waits_head hb)) (fun b hb => finishes_not_quiet hb) h ht
    exact waits_not_finishes hw he
  | shut h _ hs =>
    have hclosing := hs.2 c rfl
    rcases ho with hr | hr
    · rw [hclosing] at hr
      cases hr
    · rw [hclosing] at hr
      cases hr

theorem modest_of_bounded (h : BoundedRun reads) : Modest reads := by
  constructor
  · intro ht
    exact h.sums reads [] (by simp) ((fed_stopped_iff reads).mpr ht)
  · intro front bytes back hreads he
    have hs : ¬Turned Overflows front := by
      intro ht
      exact h.sums front (bytes::back) hreads ((fed_stopped_iff front).mpr ht)
    obtain ⟨c,hc,hopen,hbuf⟩ := fed_open hs he
    have hsize := h.size front bytes back hreads c hc hopen
    rw [hbuf] at hsize
    simpa using hsize

theorem bounded_of_modest (h : Modest reads) : BoundedRun reads := by
  constructor
  · intro front back hreads hstop
    apply h.sums
    rw [hreads]
    exact turned_mono ((fed_stopped_iff front).mp hstop)
  · intro front bytes back hreads c hc hopen
    obtain ⟨he,hbuf⟩ := open_fed hc hopen
    have hsize := h.size front bytes back hreads he
    rw [hbuf]
    simpa using hsize

end Run

/-- A connection is bounded along exactly the modest runs. -/
theorem boundedRun_iff (reads : List Bytes) : BoundedRun reads ↔ Modest reads := ⟨modest_of_bounded,bounded_of_modest⟩

/-- A line, and then letters without an end. -/
def slowRun (n : Nat) : List Bytes := (getLine (ascii "/x")++crlf)::List.replicate n (List.replicate readSize 0x61)

theorem slowRun_quiet (n : Nat) : AllQuiet (slowRun n) := by
  intro front back hreads
  cases front with
  | nil => exact quiet_nil
  | cons first front =>
    obtain ⟨rfl,hrest⟩ := List.cons.inj hreads
    have hline : cr∉getLine (ascii "/x") := getLine_noCr (by decide)
    have hletters : cr∉front.flatten := by
      intro hm
      obtain ⟨l,hl,hm⟩ := List.mem_flatten.mp hm
      have hmem : l∈List.replicate n (List.replicate readSize (0x61 : UInt8)) := by
        rw [hrest]
        exact List.mem_append_left back hl
      rw [(List.mem_replicate.mp hmem).2] at hm
      exact absurd (List.mem_replicate.mp hm).2 (by decide)
    have hflat : ((getLine (ascii "/x")++crlf)::front).flatten=getLine (ascii "/x")++(crlf++front.flatten) := by simp
    rw [hflat]
    constructor
    · intro hslow
      have hfirst : findSub crlf (getLine (ascii "/x")++(crlf++front.flatten))=some (getLine (ascii "/x")).length :=
        findSub_first _ _ cr hline
      rw [hslow.2] at hfirst
      cases hfirst
    · -- a terminator takes two carriage returns
      rw [findSub_eq_none]
      intro i hp
      have hcount := (hp.sublist.trans (List.drop_sublist i _)).count_le cr
      rw [List.count_append,List.count_append,List.count_eq_zero.mpr hline,List.count_eq_zero.mpr hletters] at hcount
      exact absurd hcount (by decide)

/-- A head that does not end fills the buffer beyond the limit in reads of 4096 bytes, and
a head of 63 bytes overflows the sum. -/
theorem bound_fails : (∀bytes∈slowRun 19,bytes.length ≤ readSize) ∧ ¬BoundedRun (slowRun 19) ∧
    ¬BoundedRun [hugeHead] := by
  refine ⟨?_,?_,?_⟩
  · intro bytes hb
    cases List.mem_cons.mp hb with
    | inl he =>
      rw [he]
      decide
    | inr hr =>
      rw [(List.mem_replicate.mp hr).2,List.length_replicate]
  · intro h
    have hno : ¬Turned Finishes (slowRun 18) := fun ht =>
      turned_not_allQuiet (fun b hb => finishes_not_quiet hb) ht (slowRun_quiet 18)
    have hsize := (modest_of_bounded h).size (slowRun 18) (List.replicate readSize 0x61) [] rfl hno
    rw [List.length_flatten] at hsize
    simp only [slowRun,List.map_append,List.map_cons,List.map_replicate,List.length_replicate,List.sum_append,
      List.sum_cons,List.sum_replicate,List.map_nil,List.sum_nil,List.length_append,getLine_length] at hsize
    exact absurd hsize (by decide)
  · intro h
    have hstop : ClientSlot.fed (.live .new) [hugeHead]=.stopped := by decide +kernel
    exact h.sums [hugeHead] [] rfl hstop

end Bolina.Control
