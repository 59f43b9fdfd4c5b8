import Quill.Report.Sink

/-!
Computations that have a sink at hand and record what they find as they go. One that reads nothing
of the sink gives the same value whatever the sink holds, and adds the same diagnostics to it
(`Recording.Gives`); so do computations that are put together from such.
-/
namespace Quill

/-- A computation that may record diagnostics while it runs. -/
abbrev Recording (α : Type) := StateM Sink α

namespace Recording

variable {α β : Type}

/-- Records one diagnostic. -/
def record (d : Diagnostic) : Recording Unit := fun sink => ((), sink.push d)

/-- Whatever the sink holds, the computation gives one value and adds the same diagnostics. -/
def Gives (run : Recording α) (value : α) (added : List Diagnostic) : Prop :=
  ∀ sink, run sink = (value, sink.pushAll added)

theorem gives_pure (value : α) : Gives (pure value) value [] := fun sink =>
  congrArg (Prod.mk value) sink.pushAll_nil.symm

theorem gives_record (d : Diagnostic) : Gives (record d) () [d] := fun _ => rfl

/-- What is added first comes first. -/
theorem Gives.bind {run : Recording α} {next : α → Recording β} {value : α} {result : β}
    {added more : List Diagnostic} (h : Gives run value added)
    (h' : Gives (next value) result more) :
    Gives (run >>= next) result (added ++ more) := by
  intro sink
  have steps : (run >>= next) sink = next (run sink).1 (run sink).2 := rfl
  rw [steps, h, h', Sink.pushAll_append]

/-- A computation that records nothing before another one. -/
theorem Gives.bind_silent {run : Recording α} {next : α → Recording β} {value : α} {result : β}
    {added : List Diagnostic} (h : Gives run value []) (h' : Gives (next value) result added) :
    Gives (run >>= next) result added :=
  h.bind h'

/-- What is made of the value makes no difference. -/
theorem Gives.bind_pure {run : Recording α} {value : α} {added : List Diagnostic}
    (h : Gives run value added) (make : α → β) :
    Gives (run >>= fun a => pure (make a)) (make value) added := by
  rw [← List.append_nil added]
  exact h.bind (gives_pure _)

theorem Gives.map {run : Recording α} {value : α} {added : List Diagnostic}
    (h : Gives run value added) (make : α → β) : Gives (make <$> run) (make value) added := by
  intro sink
  have steps : (make <$> run) sink = (make (run sink).1, (run sink).2) := rfl
  rw [steps, h]

end Recording

end Quill
