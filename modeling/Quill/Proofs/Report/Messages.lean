import Quill.Report.Findings

/-!
What the messages of the phases begin with, and which hint a syntax error has. Messages that end in
a name or a character of the source are told apart by the words in front of it (`Text.Diverge`).
-/
namespace Quill

namespace Text

/-- Of texts that are written out the characters decide, where `String.toList` is slow to
evaluate. -/
theorem infix_ofList {first second : List Char} (h : first <:+: second) :
    (String.ofList first).toList <:+: (String.ofList second).toList := by
  rwa [String.toList_ofList, String.toList_ofList]

/-- Two texts that differ before either of them ends. -/
def Diverge (text other : String) : Prop :=
  ¬text.toList <+: other.toList ∧ ¬other.toList <+: text.toList

variable {text other : String}

theorem Diverge.ofList {first second : List Char} (h : ¬first <+: second ∧ ¬second <+: first) :
    Diverge (.ofList first) (.ofList second) := by
  rwa [Diverge, String.toList_ofList, String.toList_ofList]

/-- What follows one of the texts makes no difference. -/
theorem Diverge.append (h : Diverge text other) (more : String) : Diverge text (other ++ more) := by
  have longer : other.toList <+: (other ++ more).toList := by
    rw [String.toList_append]
    exact List.prefix_append ..
  constructor
  · intro begins
    rcases List.prefix_or_prefix_of_prefix begins longer with first | second
    · exact h.1 first
    · exact h.2 second
  · exact fun begins => h.2 (longer.trans begins)

theorem Diverge.ne (h : Diverge text other) : other ≠ text := by
  rintro rfl
  exact h.1 (List.prefix_refl _)

end Text

/-- A message with a fragment that a hint goes by has a hint, if of an earlier fragment. -/
theorem syntaxHint_ne_empty {message fragment : String} (listed : fragment ∈ syntaxHints.map (·.1))
    (within : fragment.toList <:+: message.toList) : syntaxHint message ≠ "" := by
  obtain ⟨entry, member, rfl⟩ := List.mem_map.mp listed
  unfold syntaxHint
  split
  · next found =>
    have worded : ∀ entry ∈ syntaxHints, entry.2 ≠ "" := by simp [syntaxHints]
    exact worded _ (List.mem_of_find?_eq_some found)
  · next missed =>
    exact absurd ((Text.occurs_eq_true_iff ..).mpr within) (List.find?_eq_none.mp missed entry member)

namespace SyntaxCause

/-- The fragment of a message that its hint goes by. -/
def fragment : SyntaxCause → String
  | statement => "Unexpected token at start of statement"
  | valueAfterType | valueAfterName | valueAfterArray => "Expected '=' after"
  | nameAfterNew | nameAfterBl => "Expected variable name"
  | markerName => "Expected variable name inside \x7b\x7d"
  | typeAfterName | elementType => "Expected type"
  | closeAfterOpen => "Expected ']' after '['"
  | arrayLiteral => "Expected array literal"
  | closeAfterElementType | closeAfterMarkerName => "Expected '\x7d'"
  | openAfterElementType => "Expected '[' after type"
  | arraySize => "Expected array size"
  | arraySizeRange | integerRange | floatRange => "out of range"
  | closeAfterSize | closeAfterElements => "Expected ']' after array"
  | openAfterStdout => "Expected '[' after 'stdout'"
  | closeAfterContent => "Expected ']' after stdout"
  | expression => "Expected expression"
  | closeAfterExpression => "Expected ')'"

theorem fragment_within (cause : SyntaxCause) : cause.fragment.toList <:+: cause.message.toList := by
  cases cause <;> exact Text.infix_ofList (by decide)

theorem fragment_mem (cause : SyntaxCause) : cause.fragment ∈ syntaxHints.map (·.1) := by
  cases cause <;> simp [fragment, syntaxHints]

theorem suggestion_ne_empty (cause : SyntaxCause) : cause.suggestion ≠ "" :=
  syntaxHint_ne_empty cause.fragment_mem cause.fragment_within

end SyntaxCause

namespace SyntaxError

theorem message_diagnostic (error : SyntaxError) : error.diagnostic.message = error.message := by
  unfold diagnostic
  split <;> rfl

theorem suggestion_diagnostic (error : SyntaxError) :
    error.diagnostic.suggestion = error.cause.suggestion := by
  unfold diagnostic
  split <;> rfl

/-- The token that an error names comes last in its message. -/
theorem diverge_message {text : String} {error : SyntaxError}
    (h : Text.Diverge text error.cause.message) : Text.Diverge text error.message := by
  unfold message
  split
  · exact (h.append _).append _
  · exact h

end SyntaxError

end Quill
