/-!
Text with terminal styles. A styled text is a list of spans; it is painted with escape sequences, or
plainly, when only the characters are wanted.

The sequences are the ones that a package for colours writes. Whether it paints at all is a parameter
here, and what a terminal shows is not modelled.
-/
namespace Quill.Text

inductive Colour where
  | red | green | yellow | blue
  deriving DecidableEq, Repr

def Colour.code : Colour → String
  | .red => "31"
  | .green => "32"
  | .yellow => "33"
  | .blue => "34"

structure Style where
  bold : Bool
  colour : Option Colour
  deriving DecidableEq, Repr

namespace Style

def plain : Style := ⟨false, none⟩

def bolded : Style := ⟨true, none⟩

def coloured (colour : Colour) : Style := ⟨false, some colour⟩

def strong (colour : Colour) : Style := ⟨true, some colour⟩

/-- The codes of a style, weight before colour. -/
def codes (style : Style) : List String :=
  (if style.bold then ["1"] else []) ++ (style.colour.map Colour.code).toList

def opening (style : Style) : List Char :=
  ('\x1b' :: '[' :: (";".intercalate style.codes).toList) ++ ['m']

end Style

/-- The sequence that switches all styles off. -/
def reset : List Char := ['\x1b', '[', '0', 'm']

/-- Puts `opening` after each reset in a text, so that the style lasts to the end of it. -/
def reopen (opening : List Char) : List Char → List Char
  | '\x1b' :: '[' :: '0' :: 'm' :: rest => reset ++ opening ++ reopen opening rest
  | c :: rest => c :: reopen opening rest
  | [] => []

/-- A stretch of text in one style. -/
structure Span where
  style : Style
  text : List Char
  deriving DecidableEq, Repr

namespace Span

def plain (text : String) : Span := ⟨.plain, text.toList⟩

/-- The characters of a span, with escape sequences around them if it is styled and colour is on. -/
def paint (colour : Bool) (span : Span) : List Char :=
  if colour = false ∨ span.style = .plain then span.text
  else
    let opening := span.style.opening
    opening ++ reopen opening span.text ++ reset

end Span

def paint (colour : Bool) (spans : List Span) : String :=
  String.ofList (spans.flatMap (Span.paint colour))

end Quill.Text
