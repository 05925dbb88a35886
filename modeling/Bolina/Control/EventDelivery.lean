import Bolina.Control.EventCursor
import Bolina.Framework.NumberedLog

namespace Bolina.Control

open NumberedLog

/-- A ring and the client that polls it: the last number it was given, and all events
of its polls so far. -/
structure Subscriber where
  ring : EventRing
  last : Nat
  got : List (Nat × EventTag)

def Subscriber.new : Subscriber := ⟨EventRing.new,0,[]⟩

/-- A poll asks for what is behind the last number the client was given. -/
def Subscriber.step (s : Subscriber) : Call EventTag → Subscriber
  | .publish tag => { s with ring := s.ring.publish tag }
  | .poll =>
    let new := s.ring.since s.last
    { s with last := lastNumber new s.last,got := s.got++new }

def Subscriber.run (calls : List (Call EventTag)) : Subscriber := calls.foldl Subscriber.step Subscriber.new

/-- The ring keeps the newest events of the log. -/
def Keeps (ring : EventRing) (log : List EventTag) : Prop :=
  ring.events=kept ringCap log ∧ ring.nextSeq=log.length+1

theorem ringCap_pos : 0 < ringCap := by decide

theorem publish_keeps {ring : EventRing} {log : List EventTag} (h : Keeps ring log) (tag : EventTag) :
    Keeps (ring.publish tag) (log++[tag]) := by
  obtain ⟨hevents,hnext⟩ := h
  constructor
  · rw [kept_append ringCap_pos,← hevents,← hnext]
    rfl
  · change ring.nextSeq+1=(log++[tag]).length+1
    rw [hnext,List.length_append,List.length_singleton]

/-- The search for the first event behind the cursor finds all of them. -/
theorem keeps_since {ring : EventRing} {log : List EventTag} (h : Keeps ring log) (n : Nat) :
    ring.since n=(kept ringCap log).filter (fun e => n < e.1) := by
  rw [← h.1]
  apply ListSearch.drop_first
  rw [h.1]
  apply (kept_ascends ringCap log).imp
  intro a b hab ha
  simp only [decide_eq_true_eq] at ha ⊢
  exact Nat.lt_trans ha hab

/-- The client with the log behind its ring. -/
structure Follows (s : Subscriber) (r : Reader EventTag) : Prop where
  keeps : Keeps s.ring r.log
  last : s.last=r.last
  got : s.got=r.got

theorem step_follows {s : Subscriber} {r : Reader EventTag} (h : Follows s r) (c : Call EventTag) :
    Follows (s.step c) (r.step ringCap c) := by
  cases c with
  | publish tag => exact ⟨publish_keeps h.keeps tag,h.last,h.got⟩
  | poll =>
    have hnew : s.ring.since s.last=r.unread ringCap := by
      rw [keeps_since h.keeps,h.last]
      rfl
    have hstep : s.step .poll=⟨s.ring,lastNumber (r.unread ringCap) r.last,r.got++r.unread ringCap⟩ := by
      rw [Subscriber.step,hnew,h.last,h.got]
    rw [hstep,step_poll]
    exact ⟨h.keeps,rfl,rfl⟩

theorem run_follows (calls : List (Call EventTag)) :
    Follows (Subscriber.run calls) (calls.foldl (Reader.step ringCap) Reader.new) := by
  have hrun : ∀(s : Subscriber) (r : Reader EventTag),Follows s r →
      Follows (calls.foldl Subscriber.step s) (calls.foldl (Reader.step ringCap) r) := by
    induction calls with
    | nil => exact fun s r h => h
    | cons c calls ih => exact fun s r h => ih _ _ (step_follows h c)
  exact hrun _ _ ⟨⟨rfl,rfl⟩,rfl,rfl⟩

/-- The events of a run are told in order and once each; one that is followed by a poll is
told exactly when fewer than a ring of events come between. -/
theorem ring_delivery (calls : List (Call EventTag)) :
    (Subscriber.run calls).ring.events=
        (numbered (published calls)).drop ((published calls).length-min (published calls).length ringCap) ∧
      (Subscriber.run calls).ring.events.map Prod.fst=
        List.range' ((published calls).length-min (published calls).length ringCap+1)
          (min (published calls).length ringCap) ∧
      (Subscriber.run calls).got.Pairwise (fun a b => a.1 < b.1) ∧
      (∀e∈(Subscriber.run calls).got,e∈numbered (published calls)) ∧
      ∀(before : List (Call EventTag)) (tag : EventTag) (burst : List EventTag) (rest : List (Call EventTag)),
        ((published before).length+1,tag)∈
            (Subscriber.run (before++Call.publish tag::(burst.map Call.publish++Call.poll::rest))).got ↔
          burst.length < ringCap := by
  obtain ⟨⟨hevents,_⟩,_,hgot⟩ := run_follows calls
  have hread : (calls.foldl (Reader.step ringCap) Reader.new).Read := run_read ringCap_pos calls new_read
  have hlog : (calls.foldl (Reader.step ringCap) Reader.new).log=published calls := run_log calls Reader.new
  have hold : (published calls).length-min (published calls).length ringCap=(published calls).length-ringCap := by
    omega
  rw [hlog] at hevents
  refine ⟨?_,?_,?_,?_,?_⟩
  · rw [hevents,hold]
    rfl
  · rw [hevents,hold]
    exact kept_numbers ringCap (published calls)
  · rw [hgot]
    exact hread.ascends
  · rw [hgot,← hlog]
    exact hread.logged
  · intro before tag burst rest
    have hbefore : (before.foldl (Reader.step ringCap) Reader.new).Read := run_read ringCap_pos before new_read
    have hnumber : (before.foldl (Reader.step ringCap) Reader.new).log=published before := run_log before Reader.new
    rw [(run_follows _).got,List.foldl_append,← hnumber]
    exact run_delivers ringCap_pos hbefore tag burst rest

end Bolina.Control
