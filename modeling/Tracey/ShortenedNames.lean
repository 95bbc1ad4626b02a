import Tracey.Numerals
import Tracey.SymbolScan

/-!
# What shortening leaves of a symbol

A symbol as demanglers print it is a qualified name, possibly with template
arguments, a parameter list and a qualifier. Template argument lists collapse as
a whole, however deep they nest.

The parameter list is looked for at the last parenthesis that opens outside
curly and square brackets, so it is removed only if it has no parentheses in it;
and a name that has parentheses itself, in an anonymous namespace, is kept only
if a parameter list follows.
-/

namespace Tracey

open BracketWord Numerals

namespace ShortenSymbol

/-- A letter, a digit or an underscore; bytes beyond ASCII belong to other
letters. -/
def isIdentifierByte (c : UInt8) : Bool :=
  (byte 'a' ≤ c ∧ c ≤ byte 'z') ∨ (byte 'A' ≤ c ∧ c ≤ byte 'Z') ∨
    (byte '0' ≤ c ∧ c ≤ byte '9') ∨ c = byte '_' ∨ 128 ≤ c

/-- An identifier of C++: it is not empty and does not begin with a digit. Bytes
beyond ASCII count as letters. -/
structure Identifier where
  text : Text
  nonempty : text ≠ []
  bytes : ∀ c ∈ text, isIdentifierByte c = true
  begins : ∀ c ∈ text.head?, ¬ (byte '0' ≤ c ∧ c ≤ byte '9')

/-- An identifier has no brackets. A scan passes over it whole. -/
theorem Identifier.unbracketed (name : Identifier) : Unbracketed name.text := by
  intro c member
  have letter := name.bytes c member
  unfold bracketMark
  split_ifs with isBracket isBracket isBracket isBracket isBracket isBracket isBracket isBracket
  all_goals first
    | rfl
    | subst isBracket
      revert letter
      decide

/-- Names with the separator behind each. The last component of a name has none. -/
def scopesText (names : List Text) : Text := names.flatMap (· ++ text "::")

/-- What holds of the bytes of the names and of a colon holds of all. A property
of bytes is so shown component by component. -/
theorem scopesText_all {p : UInt8 → Prop} {names : List Text}
    (each : ∀ name ∈ names, ∀ c ∈ name, p c) (colon : p (byte ':')) :
    ∀ c ∈ scopesText names, p c := by
  intro c member
  obtain ⟨name, inside, part⟩ := List.mem_flatMap.mp member
  rcases List.mem_append.mp part with letter | separator
  · exact each name inside c letter
  · rcases List.mem_pair.mp separator with rfl | rfl <;> exact colon

/-- Without angle brackets only the parameter list is looked for. The pass
before it copies everything. -/
theorem shortenSymbol_strips {symbol : Text} (free : FreeOf [.angle] symbol) :
    shortenSymbol symbol = stripParameters symbol := by
  have absent : byte '<' ∉ symbol := free.absent (by rfl) (by decide)
  rw [shortenSymbol, collapseTemplates_plain (fun c member same => absent (same ▸ member))]

/-! A function with a parameter list. -/

/-- A path of identifiers to a function. The function itself is not called
`operator`, since parentheses behind that word are part of a name. -/
structure FunctionPath where
  scopes : List Identifier
  function : Identifier
  named : function.text ≠ text "operator"

/-- The path as it is printed, with the separator between its parts. Nothing
stands before the first part or behind the last. -/
def FunctionPath.text (n : FunctionPath) : Text :=
  scopesText (n.scopes.map Identifier.text) ++ n.function.text

/-- What is between the parentheses of a parameter list. Parentheses in it
match, and it has no other brackets. -/
structure Parameters where
  text : Text
  balanced : BalancedIn [.round] text
  free : FreeOf [.square, .curly, .angle] text

/-- What follows a parameter list, such as `const`. It has no brackets. -/
structure Trailer where
  text : Text
  unbracketed : Unbracketed text

/-- The name, the parameters and what follows, as they are printed. The closing
parenthesis belongs to the list. -/
def signature (n : FunctionPath) (p : Parameters) (q : Trailer) : Text :=
  n.text ++ byte '(' :: (p.text ++ byte ')' :: q.text)

/-- A path of identifiers has no brackets. -/
theorem FunctionPath.unbracketed (n : FunctionPath) : Unbracketed n.text := by
  refine .append ?_ n.function.unbracketed
  apply scopesText_all
  · intro name inside
    obtain ⟨identifier, -, rfl⟩ := List.mem_map.mp inside
    exact identifier.unbracketed
  · rfl

/-- What follows the parameters does not matter. Nothing in it counts. -/
theorem Scan.run_trailer (s : Scan) (q : Trailer) :
    (s.run (byte ')' :: q.text)).lastOpen = s.lastOpen := by
  have unbracketed := q.unbracketed
  have round : byte '(' ∉ byte ')' :: q.text := by
    intro member
    rcases List.mem_cons.mp member with same | inside
    · exact absurd same (by decide)
    · exact (unbracketed.free [.round]).absent (by rfl) (by decide) inside
  rw [s.run_other round (.bracket (by rfl) (by decide) (unbracketed.free _))]

/-- A parameter list is removed, and what follows it, exactly if the name before
it does not end in the letters of `operator` and every parenthesis in it stands
directly behind them. -/
theorem parameters_removed_iff (n : FunctionPath) (p : Parameters) (q : Trailer) :
    shortenSymbol (signature n p q) = n.text ↔
      precededByOperator n.text = false ∧ OnlyOperators [] p.text := by
  have angleFree : FreeOf [.angle] (signature n p q) := by
    have behind : FreeOf [.angle] (byte ')' :: q.text) :=
      .bracket (by rfl) (by decide) (q.unbracketed.free _)
    have inside : FreeOf [.angle] p.text := p.free.mono (by decide)
    exact (n.unbracketed.free _).append (.bracket (by rfl) (by decide) (inside.append behind))
  have entered : ({} : Scan).run n.text = { before := n.text } :=
    Scan.run_unbracketed {} n.unbracketed
  rw [shortenSymbol_strips angleFree, signature, stripParameters_front _ _ (List.cons_ne_nil _ _),
    Scan.run_append, entered]
  change (((Scan.step _ (byte '(')).run (p.text ++ byte ')' :: q.text))).lastOpen = _ ↔ _
  rw [Scan.run_append, Scan.run_trailer, Scan.step_round]
  cases preceded : precededByOperator n.text with
  | true =>
    -- The parenthesis of the list itself does not count, so one that does lies behind it.
    refine iff_of_false ?_ (fun both => absurd both.1.symm Bool.false_ne_true)
    intro here
    rcases Scan.run_lastOpen _ p.text with same | ⟨place, behind, found⟩
    · rw [same] at here
      cases here
    · rw [found] at here
      have length := Option.some.inj here
      rw [List.length_append, List.length_singleton] at behind
      exact absurd (length ▸ behind) (Nat.not_succ_le_self _)
  | false =>
    have known : ∀ place ∈ some n.text.length, place < (n.text ++ [byte '(']).length := by
      rintro place same
      rw [← Option.some.inj same, List.length_append]
      exact Nat.lt_succ_self _
    have kept := (Scan.run_level ⟨n.text ++ [byte '('], 0, some n.text.length⟩ rfl
      (p.free.mono (by decide)) known).2
    rw [onlyOperators_behind (c := byte '(') n.text (by decide)] at kept
    rw [← kept]
    simp

/-- A handler is passed as a pointer to a function; only its own parameters are
removed. -/
theorem parameters_not_removed :
    let n : FunctionPath :=
      { scopes := []
        function :=
          { text := text "signal"
            nonempty := by decide
            bytes := List.all_eq_true.mp (by decide)
            begins := by rintro c ⟨⟩; decide }
        named := by decide }
    let p : Parameters :=
      { text := text "int, void (*)(int)"
        balanced := by decide
        free := by decide }
    shortenSymbol (signature n p ⟨[], by decide⟩) ≠ n.text := by
  intro n p
  decide

/-! A qualified name, with or without parameters. -/

/-- A component before the last one: a class or a namespace, an anonymous
namespace, or the class of a closure. -/
inductive Scope where
  | named (identifier : Identifier)
  | anonymous
  | closure (args : Text) (number : Nat) (balanced : BalancedIn [.round, .square, .curly] args)
      (free : FreeOf [.angle] args)

/-- What is between the curly brackets of a closure name. It holds a pair of
parentheses of its own, which must not count. -/
def closureText (args : Text) (number : Nat) : Text :=
  text "lambda(" ++ (args ++ (text ")#" ++ decimal number))

/-- The component as it is printed. -/
def Scope.text : Scope → Text
  | .named identifier => identifier.text
  | .anonymous => Tracey.text "(anonymous namespace)"
  | .closure args number _ _ => byte '{' :: (closureText args number ++ [byte '}'])

/-- The last component: a function, whose name does not end with the word
`operator`, or the call operator with its parentheses. -/
inductive LastName where
  | named (identifier : Identifier) (apart : ¬ text "operator" <:+ identifier.text)
  | call

/-- The last component as it is printed; that of the call operator has
parentheses of its own. -/
def LastName.text : LastName → Text
  | .named identifier _ => identifier.text
  | .call => Tracey.text "operator()"

/-- A name with the components it is qualified by. It may have none. -/
structure QualifiedName where
  scopes : List Scope
  last : LastName

/-- The name as it is printed, with the separator between its components. An
anonymous namespace is printed with parentheses. -/
def QualifiedName.text (n : QualifiedName) : Text :=
  scopesText (n.scopes.map Scope.text) ++ n.last.text

/-- A parameter list without further brackets. Function pointers are not among
its types. -/
structure FlatParameters where
  text : Text
  unbracketed : Unbracketed text

/-- The parameter list in its parentheses, if there is one. Without one nothing
is printed. -/
def parametersText : Option FlatParameters → Text
  | some p => byte '(' :: (p.text ++ [byte ')'])
  | none => []

/-- A number has no brackets. -/
theorem decimal_unbracketed (number : Nat) : Unbracketed (decimal number) := by
  intro c member
  obtain ⟨digit, below, rfl⟩ := numeral_digits (by decide) number c member
  interval_cases digit <;> rfl

/-- What stands in front of the arguments of a closure has a parenthesis, and no
other bracket. -/
theorem closure_front : FreeOf [.square, .curly, .angle] (text "lambda(") := by decide

/-- Neither has what stands behind them. The parenthesis that ends them is the
only bracket in it. -/
theorem closure_back (number : Nat) :
    FreeOf [.square, .curly, .angle] (text ")#" ++ decimal number) := by
  have mark : FreeOf [.square, .curly, .angle] (text ")#") := by decide
  exact mark.append ((decimal_unbracketed number).free _)

/-- No component has an angle bracket: template arguments have a section of
their own below. -/
theorem Scope.angleFree (scope : Scope) : FreeOf [.angle] scope.text := by
  cases scope with
  | named identifier => exact identifier.unbracketed.free _
  | anonymous => decide
  | closure args number balanced free =>
    have inner : FreeOf [.angle] (closureText args number) :=
      (closure_front.mono (by decide)).append (free.append ((closure_back number).mono (by decide)))
    have closing : FreeOf [.angle] [byte '}'] := by decide
    exact .bracket (by rfl) (by decide) (inner.append closing)

/-- Nor has the last one. -/
theorem LastName.angleFree (last : LastName) : FreeOf [.angle] last.text := by
  cases last with
  | named identifier => exact identifier.unbracketed.free _
  | call => decide

/-- Nor has the whole name. The pass over template arguments leaves it alone. -/
theorem QualifiedName.angleFree (n : QualifiedName) : FreeOf [.angle] n.text := by
  refine .append ?_ n.last.angleFree
  apply scopesText_all
  · intro name inside
    obtain ⟨scope, -, rfl⟩ := List.mem_map.mp inside
    exact scope.angleFree
  · decide

/-- Nor has a parameter list without brackets of its own. -/
theorem parametersText_angleFree (params : Option FlatParameters) :
    FreeOf [.angle] (parametersText params) := by
  cases params with
  | none => exact fun c member => absurd member List.not_mem_nil
  | some p =>
    have closing : FreeOf [.angle] [byte ')'] := by decide
    exact .bracket (by rfl) (by decide) ((p.unbracketed.free _).append closing)

/-- The word `operator` is not continued over a separator. The separator is
between them. -/
theorem precededByOperator_scopes (names : List Text) (after : Text) :
    precededByOperator (scopesText names ++ after) = precededByOperator after := by
  rcases List.eq_nil_or_concat' names with rfl | ⟨others, last, rfl⟩
  · rfl
  · have split : scopesText (others ++ [last]) ++ after =
        (scopesText others ++ (last ++ [byte ':'])) ++ byte ':' :: after := by
      simp [scopesText, text, byte]
    rw [split]
    exact precededByOperator_behind (by decide)

/-- Over a component the scan stays outside brackets; only an anonymous
namespace has a parenthesis that counts. -/
theorem Scan.run_scope (s : Scan) (scope : Scope) (level : s.depth = 0)
    (apart : precededByOperator s.before = false) :
    (s.run scope.text).depth = 0 ∧
      ((s.run scope.text).lastOpen = none ↔ s.lastOpen = none ∧ scope ≠ .anonymous) := by
  cases scope with
  | named identifier =>
    have passed := s.run_unbracketed identifier.unbracketed
    rw [Scope.text, passed]
    exact ⟨level, by simp⟩
  | anonymous =>
    have rest : FreeOf [.square, .curly] (text "anonymous namespace)") := by decide
    have opened : s.run (text "(") = s.step (byte '(') := rfl
    have split : Scope.text .anonymous = text "(" ++ text "anonymous namespace)" := by
      decide
    rw [split, run_append, opened, run_other _ (by decide) rest, step_round]
    simp [level, apart]
  | closure args number balanced free =>
    have inner : BalancedIn [.square, .curly] (closureText args number) :=
      (balanced.mono (by decide)).between (closure_front.mono (by decide))
        ((closure_back number).mono (by decide))
    rw [Scope.text, s.run_enclosed level inner]
    exact ⟨level, by simp⟩

/-- Over the components before the last one too. They end outside all brackets,
and only the parenthesis of an anonymous namespace counts. -/
theorem Scan.run_scopes (scopes : List Scope) :
    (({} : Scan).run (scopesText (scopes.map Scope.text))).depth = 0 ∧
      ((({} : Scan).run (scopesText (scopes.map Scope.text))).lastOpen = none ↔
        .anonymous ∉ scopes) := by
  induction scopes using List.reverseRecOn with
  | nil => exact ⟨rfl, by simp [scopesText, run]⟩
  | append_singleton others last inductionHypothesis =>
    obtain ⟨level, uncounted⟩ := inductionHypothesis
    have apart : precededByOperator
        (({} : Scan).run (scopesText (others.map Scope.text))).before = false := by
      have ends := precededByOperator_scopes (others.map Scope.text) []
      rw [List.append_nil] at ends
      rw [run_before]
      exact ends
    have component := run_scope _ last level apart
    have separator : Unbracketed (text "::") := by decide
    have split : scopesText ((others ++ [last]).map Scope.text) =
        scopesText (others.map Scope.text) ++ (last.text ++ text "::") := by
      simp [scopesText]
    rw [split, run_append, run_append, run_unbracketed _ separator]
    refine ⟨component.1, component.2.trans ?_⟩
    rw [uncounted, List.mem_append, List.mem_singleton, not_or, ne_comm]

/-- The last component does not end in the word, and has no parenthesis that
counts. -/
theorem LastName.apart (last : LastName) : precededByOperator last.text = false := by
  cases last with
  | named identifier apart =>
    rw [← Bool.not_eq_true, precededByOperator_iff]
    exact apart
  | call => decide

/-- Over the last component the scan only moves on. The parenthesis of the call
operator stands behind its word and does not count. -/
theorem Scan.run_last (s : Scan) {names : List Text} (before : s.before = scopesText names)
    (last : LastName) : s.run last.text = { s with before := s.before ++ last.text } := by
  cases last with
  | named identifier apart => exact s.run_unbracketed identifier.unbracketed
  | call =>
    have word : Unbracketed (text "operator") := by decide
    have split : LastName.text .call = text "operator" ++ (text "(" ++ text ")") := by decide
    have preceded : precededByOperator (s.before ++ text "operator") = true := by
      rw [before, precededByOperator_scopes]
      decide
    have opened : (s.run (text "operator")).run (text "(") =
        { s with before := s.before ++ text "operator" ++ text "(" } := by
      rw [run_unbracketed _ word]
      change step _ (byte '(') = _
      rw [step_round, preceded]
      simp
      rfl
    rw [split, run_append, run_append, opened,
      run_other _ (by decide) (by decide), List.append_assoc, List.append_assoc]

/-- Over a whole name the scan stays outside brackets; only anonymous namespaces
have a parenthesis that counts. -/
theorem Scan.run_name (n : QualifiedName) :
    (({} : Scan).run n.text).depth = 0 ∧
      ((({} : Scan).run n.text).lastOpen = none ↔ .anonymous ∉ n.scopes) := by
  have before : (({} : Scan).run (scopesText (n.scopes.map Scope.text))).before =
      scopesText (n.scopes.map Scope.text) := run_before {} _
  rw [QualifiedName.text, run_append, run_last _ before]
  exact run_scopes n.scopes

/-- A whole name does not end in the word `operator`, so that a parenthesis
behind it counts. -/
theorem QualifiedName.apart (n : QualifiedName) : precededByOperator n.text = false := by
  rw [QualifiedName.text, precededByOperator_scopes]
  exact n.last.apart

/-- A name is kept exactly if a parameter list follows or none of its components
is an anonymous namespace. -/
theorem name_kept_iff (n : QualifiedName) (params : Option FlatParameters) :
    shortenSymbol (n.text ++ parametersText params) = n.text ↔
      params.isSome ∨ .anonymous ∉ n.scopes := by
  obtain ⟨level, counted⟩ := Scan.run_name n
  rw [shortenSymbol_strips (n.angleFree.append (parametersText_angleFree params))]
  cases params with
  | none =>
    have within := Scan.run_known {} (by simp) n.text
    rw [Scan.run_before] at within
    rw [parametersText, List.append_nil, stripParameters_whole within, counted]
    simp
  | some p =>
    have before : (({} : Scan).run n.text).before = n.text := Scan.run_before {} n.text
    have preceded : precededByOperator (({} : Scan).run n.text).before = false := by
      rw [before]
      exact n.apart
    have opened : ((({} : Scan).run n.text).step (byte '(')).lastOpen = some n.text.length := by
      rw [Scan.step_round, preceded, before]
      simp [level]
    have passed : ((({} : Scan).run n.text).run (parametersText (some p))).lastOpen =
        some n.text.length := by
      change (((({} : Scan).run n.text).step (byte '(')).run (p.text ++ [byte ')'])).lastOpen = _
      have closing := Scan.run_trailer
        (((({} : Scan).run n.text).step (byte '(')).run p.text) ⟨[], by decide⟩
      rw [Scan.run_append, closing, Scan.run_unbracketed _ p.unbracketed]
      exact opened
    have more : parametersText (some p) ≠ [] := List.cons_ne_nil _ _
    rw [stripParameters_front _ _ more, Scan.run_append, passed]
    simp

/-- Without a parameter list the anonymous namespace is taken for one, and no
name is left. -/
theorem name_not_kept :
    let n : QualifiedName :=
      { scopes := [.anonymous]
        last := .named
          { text := text "f"
            nonempty := by decide
            bytes := List.all_eq_true.mp (by decide)
            begins := by rintro c ⟨⟩; decide }
          (by decide) }
    shortenSymbol n.text ≠ n.text := by
  intro n
  decide

/-- With a parameter list the same name is kept: the parenthesis of the list is
the last one. -/
example :
    let n : QualifiedName := { scopes := [.anonymous], last := .call }
    let p : FlatParameters := { text := text "int, long", unbracketed := by decide }
    shortenSymbol (n.text ++ parametersText (some p)) = n.text := by
  intro n p
  decide

/-! Template argument lists. -/

/-- A chunk of a name and the template argument list behind it. The arguments
may be templates themselves, as far as their brackets match. -/
structure Instance where
  name : Text
  args : Text
  free : FreeOf [.round, .angle] name
  balanced : BalancedIn [.angle] args

/-- The chunk with its argument list, as it is printed. The last bracket ends
the list. -/
def Instance.text (i : Instance) : Text := i.name ++ byte '<' :: (i.args ++ [byte '>'])

/-- The chunk with the argument list collapsed. It does not matter how long the
list was. -/
def Instance.short (i : Instance) : Text := i.name ++ Tracey.text "<...>"

/-- A name with template argument lists, none of which stands where an operator
would be named. -/
structure Templated where
  instances : List Instance
  last : Text
  free : FreeOf [.round, .angle] last
  apart : ∀ front i back, instances = front ++ i :: back →
    ¬ text "operator" <:+ front.flatMap Instance.short ++ i.name

/-- The name with all of its argument lists. What is behind the last list is
printed as it is. -/
def Templated.text (t : Templated) : Text := t.instances.flatMap Instance.text ++ t.last

/-- The name with each argument list collapsed. What stands between the lists is
kept. -/
def Templated.short (t : Templated) : Text := t.instances.flatMap Instance.short ++ t.last

/-- Outside angle brackets everything else is copied. A closing bracket on its
own is copied, too. -/
theorem collapse_chunk (result : Text) {chunk : Text} (absent : byte '<' ∉ chunk) (rest : Text) :
    collapseTemplatesLoop result 0 false (chunk ++ rest) =
      collapseTemplatesLoop (result ++ chunk) 0 false rest := by
  induction chunk generalizing result with
  | nil => rw [List.append_nil, List.nil_append]
  | cons c others inductionHypothesis =>
    have other : c ≠ byte '<' := fun same => absent (same ▸ List.mem_cons_self)
    have later := inductionHypothesis (result ++ [c]) (List.not_mem_of_not_mem_cons absent)
    rw [List.append_assoc] at later
    rw [List.cons_append, collapseTemplatesLoop]
    simpa [other] using later

/-- Inside them nothing is copied; the depth is that of the angle brackets open
around, as long as those in there match. -/
theorem collapse_inside {opened closed : List Bracket} (result : Text) {args : Text}
    (walked : walk opened (brackets [.angle] args) = some closed) (rest : Text) :
    collapseTemplatesLoop result (opened.length + 1) false (args ++ rest) =
      collapseTemplatesLoop result (closed.length + 1) false rest := by
  induction args generalizing opened with
  | nil =>
    rw [← Option.some.inj walked, List.nil_append]
  | cons c others inductionHypothesis =>
    have deep : ((opened.length : Int) + 1) ≠ 0 := by omega
    have positive : ((opened.length : Int) + 1) > 0 := by omega
    rw [List.cons_append, collapseTemplatesLoop]
    by_cases opens : c = byte '<'
    · have shown : brackets [.angle] (c :: others) = .opening .angle :: brackets [.angle] others := by
        rw [opens]
        rfl
      rw [shown, walk_opening] at walked
      have later := inductionHypothesis walked
      rw [List.length_append, List.length_singleton] at later
      simpa [opens, deep, positive] using later
    by_cases closes : c = byte '>'
    · have shown : brackets [.angle] (c :: others) = .closing .angle :: brackets [.angle] others := by
        rw [closes]
        rfl
      rw [shown] at walked
      obtain ⟨middle, popped, continued⟩ := walk_closing_split walked
      have later := inductionHypothesis continued
      have length := congrArg List.length (walk_closing_some popped)
      rw [List.length_append, List.length_singleton] at length
      have shallower : ((opened.length : Int) + 1) - 1 = middle.length + 1 := by omega
      rw [if_neg Bool.false_ne_true, if_neg (fun both => opens both.1),
        if_neg (fun both => opens both.1), if_pos ⟨closes, positive⟩, shallower]
      exact later
    · have missing : ∀ mark ∈ bracketMark c, mark.name ∉ [Bracket.angle] := by
        simp only [bracketMark, opens, closes, if_false]
        split_ifs <;> simp [Mark.name]
      rw [brackets_other missing] at walked
      simpa [opens, closes, deep] using inductionHypothesis walked

/-- An argument list becomes an ellipsis. Lists within it leave no ellipsis of
their own. -/
theorem collapse_instance (result : Text) (i : Instance)
    (apart : precededByOperator (result ++ i.name) = false) (rest : Text) :
    collapseTemplatesLoop result 0 false (i.text ++ rest) =
      collapseTemplatesLoop (result ++ i.short) 0 false rest := by
  have entered : collapseTemplatesLoop (result ++ i.name) 0 false
      (byte '<' :: (i.args ++ (byte '>' :: rest))) =
      collapseTemplatesLoop (result ++ i.name ++ text "<...>") 1 false
        (i.args ++ (byte '>' :: rest)) := by
    rw [collapseTemplatesLoop]
    simp [apart]
  have left : collapseTemplatesLoop (result ++ i.name ++ text "<...>") 1 false (byte '>' :: rest) =
      collapseTemplatesLoop (result ++ i.name ++ text "<...>") 0 false rest := by
    rw [collapseTemplatesLoop]
    rfl
  have inside := collapse_inside (result ++ i.name ++ text "<...>") i.balanced (byte '>' :: rest)
  have split : i.text ++ rest = i.name ++ (byte '<' :: (i.args ++ (byte '>' :: rest))) := by
    simp [Instance.text]
  rw [split, collapse_chunk result (i.free.absent (by rfl) (by decide)), entered]
  refine inside.trans (left.trans ?_)
  rw [Instance.short, List.append_assoc]

/-- Argument list after argument list. Each one is met outside all brackets. -/
theorem collapse_instances (t : Templated) :
    collapseTemplates t.text = t.short := by
  have copied : ∀ back front, t.instances = front ++ back →
      collapseTemplatesLoop (front.flatMap Instance.short) 0 false
        (back.flatMap Instance.text ++ t.last) = t.short := by
    intro back
    induction back with
    | nil =>
      intro front split
      have chunk := collapse_chunk (front.flatMap Instance.short)
        (t.free.absent (by rfl) (by decide)) []
      rw [List.append_nil] at split chunk
      rw [List.flatMap_nil, List.nil_append, chunk, Templated.short, split]
      rfl
    | cons i back inductionHypothesis =>
      intro front split
      have apart : precededByOperator (front.flatMap Instance.short ++ i.name) = false := by
        rw [← Bool.not_eq_true, precededByOperator_iff]
        exact t.apart front i back split
      have later := inductionHypothesis (front ++ [i]) (split.trans (List.append_cons _ _ _))
      rw [List.flatMap_append, List.flatMap_singleton] at later
      rw [List.flatMap_cons, List.append_assoc, collapse_instance _ i apart]
      exact later
  exact copied t.instances [] rfl

/-- Template argument lists collapse, and nothing else changes. No parenthesis
is left that could begin a parameter list. -/
theorem templates_collapse (t : Templated) : shortenSymbol t.text = t.short := by
  have plain : ∀ c ∈ t.short, c ≠ byte '(' := by
    intro c member
    rcases List.mem_append.mp member with inside | inside
    · obtain ⟨i, -, part⟩ := List.mem_flatMap.mp inside
      rcases List.mem_append.mp part with letter | ellipsis
      · rintro rfl
        exact i.free.absent (by rfl) (by decide) letter
      · rintro rfl
        revert ellipsis
        decide
    · rintro rfl
      exact t.free.absent (by rfl) (by decide) inside
  rw [shortenSymbol, collapse_instances, stripParameters_plain plain]

/-- A member function template of a class template: the arguments of the first
list have lists and parentheses of their own, and the chunk of the second list
follows the first. -/
def emplaced : Templated where
  instances :=
    [{ name := text "std::map"
       args := text "std::string, std::vector<std::function<void (*)(int)> >"
       free := by decide
       balanced := by decide },
      { name := text "::emplace"
        args := text "int, std::pair<int, long>"
        free := by decide
        balanced := by decide }]
  last := text "[abi:cxx11]"
  free := by decide
  apart := by
    intro front i back split
    rcases front with _ | ⟨first, _ | ⟨second, more⟩⟩
    · obtain ⟨rfl, -⟩ := List.cons.inj split
      decide
    · obtain ⟨rfl, rest⟩ := List.cons.inj split
      obtain ⟨rfl, -⟩ := List.cons.inj rest
      decide
    · have length := congrArg List.length split
      simp at length

/-- Both lists of the member function collapse, with all that is nested in them. -/
theorem templates_collapse_emplaced :
    shortenSymbol (text ("std::map<std::string, std::vector<std::function<void (*)(int)> >>" ++
      "::emplace<int, std::pair<int, long>>[abi:cxx11]")) =
      text "std::map<...>::emplace<...>[abi:cxx11]" := by
  have shape : emplaced.text =
      text ("std::map<std::string, std::vector<std::function<void (*)(int)> >>" ++
        "::emplace<int, std::pair<int, long>>[abi:cxx11]") := by decide
  have short : emplaced.short = text "std::map<...>::emplace<...>[abi:cxx11]" := by decide
  rw [← shape, ← short]
  exact templates_collapse emplaced

end ShortenSymbol

end Tracey
