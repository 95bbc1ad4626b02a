import Tracey.PerfEvent

/-!
# Shortening of demangled symbols

The two passes of `shorten_symbol.cpp`. The first collapses template argument
lists, the second removes the function's parameter list. Both scan the symbol
once from left to right; the loops recurse on the bytes that remain, with the
loop's local variables as arguments.
-/

namespace Tracey.ShortenSymbol

/-- The eight bytes before a position spell `operator`. The position is the
length of the text scanned so far. -/
def precededByOperator (before : Text) : Bool :=
  8 ≤ before.length && before.drop (before.length - 8) == text "operator"

/-- First pass: replace every template argument list by an ellipsis in angle
brackets, keeping the comparison and shift operators. `skip` stands for the
extra increment of the loop index, which passes over the next byte. -/
def collapseTemplatesLoop (result : Text) (angleDepth : Int) (skip : Bool) : Text → Text
  | [] => result
  | c :: rest =>
    if skip then collapseTemplatesLoop result angleDepth false rest
    else if c = byte '<' ∧ angleDepth = 0 then
      if precededByOperator result then
        if rest.head? = some (byte '<') then
          collapseTemplatesLoop (result ++ text "<<") angleDepth true rest
        else collapseTemplatesLoop (result ++ text "<") angleDepth false rest
      else collapseTemplatesLoop (result ++ text "<...>") 1 false rest
    else if c = byte '<' ∧ angleDepth > 0 then
      collapseTemplatesLoop result (angleDepth + 1) false rest
    else if c = byte '>' ∧ angleDepth > 0 then
      collapseTemplatesLoop result (angleDepth - 1) false rest
    else if angleDepth = 0 then collapseTemplatesLoop (result ++ [c]) angleDepth false rest
    else collapseTemplatesLoop result angleDepth false rest

/-- The first pass over a whole symbol. It starts outside all angle brackets,
with nothing written and nothing to skip. -/
def collapseTemplates (sym : Text) : Text := collapseTemplatesLoop [] 0 false sym

/-- Second pass: the position of the last opening parenthesis outside curly and
square brackets that does not belong to `operator()`. `before` is the part of
the symbol already scanned, and its length the loop index. -/
def lastOpenLoop (before : Text) (depth : Int) (lastOpen : Option Nat) (skip : Bool) :
    Text → Option Nat
  | [] => lastOpen
  | c :: rest =>
    if skip then lastOpenLoop (before ++ [c]) depth lastOpen false rest
    else if c = byte '{' ∨ c = byte '[' then
      lastOpenLoop (before ++ [c]) (depth + 1) lastOpen false rest
    else if c = byte '}' ∨ c = byte ']' then
      lastOpenLoop (before ++ [c]) (depth - 1) lastOpen false rest
    else if c = byte '(' ∧ depth = 0 then
      if precededByOperator before then
        if rest.head? = some (byte ')') then lastOpenLoop (before ++ [c]) depth lastOpen true rest
        else lastOpenLoop (before ++ [c]) depth lastOpen false rest
      else lastOpenLoop (before ++ [c]) depth (some before.length) false rest
    else lastOpenLoop (before ++ [c]) depth lastOpen false rest

/-- Cut the symbol off at the parenthesis that the second pass has found.
Without such a parenthesis the symbol stays as it is; what follows the parameter
list goes with it. -/
def stripParameters (sym : Text) : Text :=
  match lastOpenLoop [] 0 none false sym with
  | some lastOpen => sym.take lastOpen
  | none => sym

end ShortenSymbol

/-- The label under which a symbol appears in the trace. Template arguments go
first, so that parentheses within them are not taken for a parameter list. -/
def shortenSymbol (symbol : Text) : Text :=
  ShortenSymbol.stripParameters (ShortenSymbol.collapseTemplates symbol)

/-- A nested template argument list collapses as a whole, and the parameter list
behind it goes. -/
example : shortenSymbol (text "a<b<c>>::f(int)") = text "a<...>::f" := by decide

/-- Without angle brackets there is nothing to collapse. Closing brackets and
commas on their own are kept. -/
theorem collapseTemplates_plain {symbol : Text} (plain : ∀ c ∈ symbol, c ≠ byte '<') :
    ShortenSymbol.collapseTemplates symbol = symbol := by
  have collapsed : ∀ result, ShortenSymbol.collapseTemplatesLoop result 0 false symbol =
      result ++ symbol := by
    induction symbol with
    | nil =>
      intro result
      exact (List.append_nil result).symm
    | cons c rest inductionHypothesis =>
      intro result
      have others := inductionHypothesis (fun d member => plain d (List.mem_cons_of_mem c member))
      simp [ShortenSymbol.collapseTemplatesLoop, plain c List.mem_cons_self, others]
  exact collapsed []

/-- Without parentheses there is nothing to strip. -/
theorem stripParameters_plain {symbol : Text} (plain : ∀ c ∈ symbol, c ≠ byte '(') :
    ShortenSymbol.stripParameters symbol = symbol := by
  have unopened : ∀ before depth,
      ShortenSymbol.lastOpenLoop before depth none false symbol = none := by
    induction symbol with
    | nil =>
      intro before depth
      rfl
    | cons c rest inductionHypothesis =>
      intro before depth
      have others := inductionHypothesis (fun d member => plain d (List.mem_cons_of_mem c member))
      simp [ShortenSymbol.lastOpenLoop, plain c List.mem_cons_self, others]
  rw [ShortenSymbol.stripParameters, unopened]

/-- A symbol without angle brackets and parentheses is its own label. This is
the usual symbol of a program in C. -/
theorem shortenSymbol_plain {symbol : Text}
    (plain : ∀ c ∈ symbol, c ≠ byte '<' ∧ c ≠ byte '(') : shortenSymbol symbol = symbol := by
  rw [shortenSymbol, collapseTemplates_plain (fun c member => (plain c member).1),
    stripParameters_plain (fun c member => (plain c member).2)]

end Tracey
