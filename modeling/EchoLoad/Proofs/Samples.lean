import EchoLoad.Samples
import Mathlib.Data.List.DropRight
/-!
The samples of a sink, whatever is done with it and in whichever order. A sample waits on the channel
or in the collection of its kind, until its kind is taken. Main statement: `samples_conserved`.
-/

namespace EchoLoad

inductive SampleKind where
  | join
  | message
  deriving DecidableEq, Repr

def SinkAction.sample? : SinkAction → Option Sample
  | record _ x => some x
  | _ => none

namespace SampleKind

def latency? : SampleKind → Sample → Option Duration
  | join => Sink.joinOf
  | message => Sink.messageOf

def take : SampleKind → SinkAction
  | join => .takeJoins
  | message => .takeMessages

/-- The samples of this kind that have been collected and not taken. -/
def collected : SampleKind → Sink → List Duration
  | join, s => s.joins
  | message, s => s.messages

/-- The samples of this kind that are sent, in order. -/
def sent (kind : SampleKind) (actions : List SinkAction) : List Duration :=
  (actions.filterMap SinkAction.sample?).filterMap kind.latency?

/-- Whether an action sends a sample or takes those of this kind. -/
def concerns (kind : SampleKind) (a : SinkAction) : Bool := a.sample?.isSome || a = kind.take

end SampleKind

namespace Sink

variable {kind : SampleKind} {s s' : Sink} {a : SinkAction} {actions : List SinkAction}

def after (s : Sink) (actions : List SinkAction) : Sink :=
  actions.foldl (fun s a => (s.perform a).2) s

/-- What is taken of this kind, one list each time. -/
def taken (kind : SampleKind) : Sink → List SinkAction → List (List Duration)
  | _, [] => []
  | s, a :: rest =>
    if a = kind.take then (s.perform a).1 :: taken kind (s.perform a).2 rest
    else taken kind (s.perform a).2 rest

/-! ## One action -/

theorem perform_take (kind : SampleKind) (s : Sink) :
    (s.perform kind.take).1 = kind.collected s.collect := by
  cases kind <;> rfl

/-- **What waits after an action**: nothing if it was taken, and else what waited before and what has
been sent. -/
theorem collected_perform (kind : SampleKind) (s : Sink) (a : SinkAction) :
    kind.collected (s.perform a).2.collect =
      if a = kind.take then [] else kind.collected s.collect ++ kind.sent [a] := by
  cases a with
  | record recorder x =>
    cases kind <;> cases x <;>
      simp [perform, record, collect, SampleKind.collected, SampleKind.take, SampleKind.sent,
        SinkAction.sample?, SampleKind.latency?, joinOf, messageOf]
  | collect | takeMessages | takeJoins =>
    cases kind <;>
      simp [perform, collect, takeMessages, takeJoins, SampleKind.collected, SampleKind.take,
        SampleKind.sent, SinkAction.sample?]

/-! ## All actions -/

theorem sent_cons (kind : SampleKind) (a : SinkAction) (actions : List SinkAction) :
    kind.sent (a :: actions) = kind.sent [a] ++ kind.sent actions := by
  rw [← List.singleton_append, SampleKind.sent, List.filterMap_append, List.filterMap_append]
  rfl

theorem sent_concat (kind : SampleKind) (actions : List SinkAction) (a : SinkAction) :
    kind.sent (actions ++ [a]) = kind.sent actions ++ kind.sent [a] := by
  rw [SampleKind.sent, List.filterMap_append, List.filterMap_append]
  rfl

theorem sent_take (kind : SampleKind) : kind.sent [kind.take] = [] := by
  cases kind <;> rfl

/-- **Nothing is lost and nothing comes twice.** -/
theorem taken_append_collected (kind : SampleKind) (s : Sink) (actions : List SinkAction) :
    (taken kind s actions).flatten ++ kind.collected (s.after actions).collect =
      kind.collected s.collect ++ kind.sent actions := by
  induction actions generalizing s with
  | nil => exact (List.append_nil _).symm
  | cons a rest ih =>
    have hrest := ih (s.perform a).2
    rw [collected_perform] at hrest
    rw [sent_cons, taken]
    by_cases ha : a = kind.take
    · rw [if_pos ha] at hrest ⊢
      subst ha
      rw [List.flatten_cons, perform_take, List.append_assoc, sent_take]
      exact congrArg _ hrest
    · rw [if_neg ha] at hrest ⊢
      rw [← List.append_assoc]
      exact hrest

/-- **What waits is what was sent since the kind was last taken.** -/
theorem collected_after (kind : SampleKind) (actions : List SinkAction) :
    kind.collected (({} : Sink).after actions).collect =
      kind.sent (actions.rtakeWhile (· ≠ kind.take)) := by
  induction actions using List.reverseRecOn with
  | nil => cases kind <;> rfl
  | append_singleton actions a ih =>
    have hafter : ({} : Sink).after (actions ++ [a]) = ((({} : Sink).after actions).perform a).2 :=
      List.foldl_concat ..
    rw [hafter, collected_perform, ih, List.rtakeWhile_concat]
    by_cases ha : a = kind.take
    · simp [ha, SampleKind.sent]
    · simp [ha, sent_concat]

theorem collected_perform_aside (h : kind.concerns a = false) :
    kind.collected (s.perform a).2.collect = kind.collected s.collect := by
  obtain ⟨hsample, htake⟩ : a.sample? = none ∧ a ≠ kind.take := by
    simpa [SampleKind.concerns] using h
  rw [collected_perform, if_neg htake, SampleKind.sent, List.filterMap_cons, hsample]
  exact List.append_nil _

/-- **What is taken of a kind depends on nothing that does not concern it.** -/
theorem taken_filter (h : kind.collected s.collect = kind.collected s'.collect) :
    taken kind s actions = taken kind s' (actions.filter kind.concerns) := by
  induction actions generalizing s s' with
  | nil => rfl
  | cons a rest ih =>
    by_cases ha : kind.concerns a = true
    · have hnext : kind.collected (s.perform a).2.collect =
          kind.collected (s'.perform a).2.collect := by
        rw [collected_perform, collected_perform, h]
      rw [List.filter_cons_of_pos ha, taken, taken, ih hnext]
      by_cases htake : a = kind.take
      · rw [if_pos htake, if_pos htake, htake, perform_take, perform_take, h]
      · rw [if_neg htake, if_neg htake]
    · have hnext : kind.collected (s.perform a).2.collect = kind.collected s'.collect :=
        (collected_perform_aside (Bool.eq_false_iff.2 ha)).trans h
      have htake : a ≠ kind.take := fun htake => ha (by simp [SampleKind.concerns, htake])
      rw [List.filter_cons_of_neg ha, taken, if_neg htake, ih hnext]

end Sink

/-- **A sink conserves its samples.** Whatever its recorders send and however that is interleaved with
collecting and taking, for joins and for messages alike: all that was taken, and behind it what a last
take gives, is what was sent, in order. What has been collected is what was sent since the kind was
last taken. Each take gives the same as if the samples had only been sent and this kind been taken: it
makes no difference where samples of the other kind are taken, or where any are collected. -/
theorem samples_conserved (kind : SampleKind) (actions : List SinkAction) :
    let s := ({} : Sink).after actions
    (Sink.taken kind {} actions).flatten ++ (s.perform kind.take).1 = kind.sent actions ∧
    kind.collected (s.perform .collect).2 = kind.sent (actions.rtakeWhile (· ≠ kind.take)) ∧
    Sink.taken kind {} (actions ++ [kind.take]) =
      Sink.taken kind {} (actions.filter kind.concerns ++ [kind.take]) := by
  intro s
  refine ⟨?_, Sink.collected_after kind actions, ?_⟩
  · have hall := Sink.taken_append_collected kind {} actions
    rw [Sink.perform_take, hall]
    cases kind <;> rfl
  · have hlast : (actions ++ [kind.take]).filter kind.concerns =
        actions.filter kind.concerns ++ [kind.take] := by
      simp [List.filter_append, SampleKind.concerns]
    rw [← hlast]
    exact Sink.taken_filter rfl

/-- Joins wait while messages are taken. -/
example :
    let actions : List SinkAction := [.record 0 (.message 5), .takeMessages, .record 1 (.message 7),
      .record 0 (.join 9), .takeMessages]
    Sink.taken .message {} actions = [[5], [7]] ∧
      ((({} : Sink).after actions).perform .takeJoins).1 = [9] := by
  decide

end EchoLoad
