import Smpl.Syntax.Operator
import Smpl.Token.Scan

namespace Smpl

open List

variable {mark : List Char} {operand inside right left : List Lexeme}

/-- Operators over names and literals, without parentheses. Binary operators are given as they are spelled. -/
inductive OperatorTree
  | integer (value : Int)
  | bool (value : Bool)
  | name (name : String)
  | unary (op : UnaryOp) (operand : OperatorTree)
  | binary (mark : List Char) (left right : OperatorTree)
deriving DecidableEq

namespace Rust

inductive Lexeme
  | word (text : List Char)
  | mark (text : List Char)

/-- The characters of names and numbers, with the mark of raw identifiers. -/
def isWordPart (c : Char) : Bool :=
  isIdentifierPart c || c = '#'

/-- The marks of more than one character, the longest first, and the openings of comments. -/
def longMarks : List (List Char) :=
  [['<', '<', '='], ['>', '>', '='], ['.', '.', '.'], ['.', '.', '='], ['/', '/'], ['/', '*'], [':', ':'], ['-', '>'],
    ['=', '>'], ['=', '='], ['!', '='], ['<', '='], ['>', '='], ['&', '&'], ['|', '|'], ['+', '='], ['-', '='],
    ['*', '='], ['/', '='], ['%', '='], ['^', '='], ['&', '='], ['|', '='], ['<', '<'], ['>', '>'], ['.', '.']]

/-- The mark at the start of a text. -/
def markAt (c : Char) (rest : List Char) : List Char :=
  (longMarks.find? (·.isPrefixOf (c :: rest))).getD [c]

/-- The words and marks of a text. -/
def lexemes : List Char → List Lexeme
  | [] => []
  | c :: rest =>
    if isBlank c then lexemes rest
    else if isWordPart c then .word (c :: rest.takeWhile isWordPart) :: lexemes (rest.dropWhile isWordPart)
    else .mark (markAt c rest) :: lexemes (rest.drop ((markAt c rest).length - 1))
termination_by text => text.length
decreasing_by
  · exact Nat.lt_succ_self _
  · exact Nat.lt_succ_of_le (dropWhile_suffix _).length_le
  · exact Nat.lt_succ_of_le (drop_suffix _ _).length_le

/-- The name that an identifier spells, without the mark of raw ones. -/
def rawName : List Char → List Char
  | 'r' :: '#' :: name => name
  | name => name

/-- What a word denotes. -/
def atom (word : List Char) : OperatorTree :=
  if word.all Char.isDigit then .integer (Nat.ofDigitChars 10 word 0)
  else if word = ['t', 'r', 'u', 'e'] then .bool true
  else if word = ['f', 'a', 'l', 's', 'e'] then .bool false
  else .name (String.ofList (rawName word))

/-- How binary operators group: how tightly each binds, and how tightly the binary operators in each of its operands
    must bind at least, if there may be any. -/
structure OperatorTable where
  level? : List Char → Option Nat
  left : List Char → Option Nat
  right : List Char → Option Nat
  knows : ∀ op : BinaryOp, ∃ level, level? op.spelling.toList = some level
  parens : level? ['('] = none ∧ level? [')'] = none

/-- The trees that words and marks are read as. The bound is what binary operators outside of parentheses must bind at
    least, and `none` forbids them. Prefix operators bind tighter than all binary ones, and a prefix `&&` is two of
    them. -/
inductive Reads (table : OperatorTable) : Option Nat → List Lexeme → OperatorTree → Prop
  | atom (bound : Option Nat) (word : List Char) : Reads table bound [.word word] (atom word)
  | group (bound : Option Nat) {inside : List Lexeme} {tree : OperatorTree} :
    Reads table (some 0) inside tree → Reads table bound (.mark ['('] :: (inside ++ [.mark [')']])) tree
  | unary (bound : Option Nat) (op : UnaryOp) {operand : List Lexeme} {tree : OperatorTree} :
    Reads table none operand tree → Reads table bound (.mark op.spelling.toList :: operand) (.unary op tree)
  | twoReferences (bound : Option Nat) {operand : List Lexeme} {tree : OperatorTree} :
    Reads table none operand tree →
    Reads table bound (.mark ['&', '&'] :: operand) (.unary .reference (.unary .reference tree))
  | binary {bound level : Nat} {mark : List Char} {left right : List Lexeme} {leftTree rightTree : OperatorTree} :
    table.level? mark = some level → bound ≤ level → Reads table (table.left mark) left leftTree →
    Reads table (table.right mark) right rightTree →
    Reads table (some bound) (left ++ .mark mark :: right) (.binary mark leftTree rightTree)

namespace OperatorTable

/-- The table in which no operand of a binary operator has one itself outside of parentheses. -/
def strict : OperatorTable where
  level? mark := if BinaryOp.all.any fun op => op.spelling.toList = mark then some 0 else none
  left _ := none
  right _ := none
  knows op := by cases op <;> exact ⟨0, by decide⟩
  parens := by decide

/-- How tightly Rust's own operators bind. -/
def rustLevel? : List Char → Option Nat
  | ['|', '|'] => some 1
  | ['&', '&'] => some 2
  | ['=', '='] | ['!', '='] | ['<'] | ['>'] | ['<', '='] | ['>', '='] => some 3
  | ['|'] => some 4
  | ['^'] => some 5
  | ['&'] => some 6
  | ['<', '<'] | ['>', '>'] => some 7
  | ['+'] | ['-'] => some 8
  | ['*'] | ['/'] | ['%'] => some 9
  | _ => none

/-- Rust's own table. Comparisons do not chain, and all other operators group to the left. -/
def rust : OperatorTable where
  level? := rustLevel?
  left mark := (rustLevel? mark).map fun level => if level = 3 then 4 else level
  right mark := (rustLevel? mark).map (· + 1)
  knows op := by cases op <;> exact ⟨_, rfl⟩
  parens := by decide

variable (table : OperatorTable)

/-- A binary operator is no parenthesis. -/
theorem ne_paren {level : Nat} (h : table.level? mark = some level) : mark ≠ ['('] ∧ mark ≠ [')'] := by
  constructor
  · rintro rfl
    rw [table.parens.1] at h
    cases h
  · rintro rfl
    rw [table.parens.2] at h
    cases h

end OperatorTable

theorem unary_ne_paren (op : UnaryOp) : op.spelling.toList ≠ ['('] ∧ op.spelling.toList ≠ [')'] := by
  cases op <;> decide

theorem unary_ne_twoReferences (op : UnaryOp) : op.spelling.toList ≠ ['&', '&'] := by
  cases op <;> decide

theorem unary_spelling_inj {op op' : UnaryOp} (h : op.spelling.toList = op'.spelling.toList) : op = op' := by
  revert h
  cases op <;> cases op' <;> decide

/-- How many parentheses are open after a word or mark. -/
def Lexeme.nest (depth : Nat) : Lexeme → Option Nat
  | .word _ => some depth
  | .mark text =>
    if text = ['('] then some (depth + 1)
    else if text = [')'] then if depth = 0 then none else some (depth - 1)
    else some depth

def Lexeme.isClosing : Lexeme → Bool
  | .word _ => true
  | .mark text => text = [')']

theorem nest_mark (h : mark ≠ ['('] ∧ mark ≠ [')']) (depth : Nat) : (Lexeme.mark mark).nest depth = some depth := by
  simp [Lexeme.nest, h.1, h.2]

theorem nest_succ {lexeme : Lexeme} {depth depth' : Nat} (h : lexeme.nest depth = some depth') :
    lexeme.nest (depth + 1) = some (depth' + 1) := by
  cases lexeme with
  | word => simpa [Lexeme.nest] using h
  | mark text =>
    simp only [Lexeme.nest] at h ⊢
    by_cases hopening : text = ['(']
    · simp only [hopening, if_true, Option.some.injEq] at h ⊢
      omega
    by_cases hclosing : text = [')']
    · simp only [hclosing, if_true] at h ⊢
      grind
    · simpa [hopening, hclosing] using h

/-- Words and marks leave as many more parentheses open as are open around them. -/
theorem foldlM_nest_succ {lexemes : List Lexeme} {depth depth' : Nat}
    (h : lexemes.foldlM Lexeme.nest depth = some depth') :
    lexemes.foldlM Lexeme.nest (depth + 1) = some (depth' + 1) := by
  induction lexemes generalizing depth with
  | nil =>
    cases h
    rfl
  | cons lexeme lexemes ih =>
    rw [foldlM_cons] at h ⊢
    obtain ⟨middle, hfirst, hrest⟩ := Option.bind_eq_some_iff.1 h
    rw [nest_succ hfirst]
    exact ih hrest

/-- Words and marks that leave no parenthesis open and end with a word or a parenthesis. -/
structure Closed (lexemes : List Lexeme) : Prop where
  nested : ∀ depth, lexemes.foldlM Lexeme.nest depth = some depth
  ends : ∃ before last, lexemes = before ++ [last] ∧ last.isClosing = true

/-- Nothing closed stands at the start with more after it. -/
def Unbroken (lexemes : List Lexeme) : Prop :=
  ∀ before lexeme after, lexemes = before ++ lexeme :: after → ¬ Closed before

namespace Closed

theorem not_nil : ¬ Closed [] := by
  rintro ⟨_, before, last, h, _⟩
  simp at h

theorem group (h : Closed inside) : Closed (.mark ['('] :: (inside ++ [.mark [')']])) where
  nested depth := by
    have hopen : (Lexeme.mark ['(']).nest depth = some (depth + 1) := rfl
    rw [foldlM_cons, hopen]
    change (inside ++ [Lexeme.mark [')']]).foldlM Lexeme.nest (depth + 1) = _
    rw [foldlM_append, h.nested]
    rfl
  ends := ⟨.mark ['('] :: inside, .mark [')'], rfl, rfl⟩

theorem cons (hmark : mark ≠ ['('] ∧ mark ≠ [')']) (h : Closed operand) :
    Closed (.mark mark :: operand) where
  nested depth := by
    rw [foldlM_cons, nest_mark hmark]
    exact h.nested depth
  ends := by
    obtain ⟨before, last, rfl, hlast⟩ := h.ends
    exact ⟨.mark mark :: before, last, rfl, hlast⟩

theorem append (hleft : Closed left) (hright : Closed right) : Closed (left ++ right) where
  nested depth := by
    rw [foldlM_append, hleft.nested]
    exact hright.nested depth
  ends := by
    obtain ⟨before, last, rfl, hlast⟩ := hright.ends
    exact ⟨left ++ before, last, by rw [append_assoc], hlast⟩

/-- What comes after a mark that follows something closed is closed if all is. -/
theorem of_append (hleft : Closed left)
    (hmark : mark ≠ ['('] ∧ mark ≠ [')']) (h : Closed (left ++ .mark mark :: right)) : Closed right where
  nested depth := by
    have hnested := h.nested depth
    rw [foldlM_append, hleft.nested] at hnested
    change (List.foldlM Lexeme.nest depth (.mark mark :: right)) = _ at hnested
    rw [foldlM_cons, nest_mark hmark] at hnested
    exact hnested
  ends := by
    obtain ⟨before, last, heq, hlast⟩ := h.ends
    rcases eq_nil_or_concat right with rfl | ⟨middle, final, hright⟩
    · obtain ⟨_, hfinal⟩ := append_inj' heq rfl
      cases hfinal
      exact absurd (of_decide_eq_true hlast) hmark.2
    · rw [concat_eq_append] at hright
      refine ⟨middle, final, hright, ?_⟩
      rw [hright, ← cons_append, ← append_assoc] at heq
      obtain ⟨_, hfinal⟩ := append_inj' heq rfl
      cases hfinal
      exact hlast

end Closed

namespace Unbroken

theorem word (text : List Char) : Unbroken [.word text] := by
  intro before lexeme after heq hclosed
  cases before with
  | nil => exact hclosed.not_nil
  | cons first before => simp at heq

theorem cons (hmark : mark ≠ ['('] ∧ mark ≠ [')']) (h : Unbroken operand) : Unbroken (.mark mark :: operand) := by
  intro before lexeme after heq hclosed
  cases before with
  | nil => exact hclosed.not_nil
  | cons first before =>
    cases heq
    refine h before lexeme after rfl ⟨fun depth => ?_, ?_⟩
    · have hnested := hclosed.nested depth
      rwa [foldlM_cons, nest_mark hmark] at hnested
    · obtain ⟨earlier, last, heq, hlast⟩ := hclosed.ends
      cases earlier with
      | nil =>
        cases heq
        exact absurd (of_decide_eq_true hlast) hmark.2
      | cons _ earlier =>
        cases heq
        exact ⟨earlier, last, rfl, hlast⟩

/-- A group is open until its last parenthesis. -/
theorem group (h : Closed inside) : Unbroken (.mark ['('] :: (inside ++ [.mark [')']])) := by
  intro before lexeme after heq hclosed
  cases before with
  | nil => exact hclosed.not_nil
  | cons first before =>
    rw [cons_append, List.cons.injEq] at heq
    obtain ⟨rfl, heq⟩ := heq
    have hinside : inside = before ++ (lexeme :: after).dropLast := by
      rw [← dropLast_append_of_ne_nil (cons_ne_nil lexeme after), ← heq, dropLast_concat]
    have hnested := h.nested 0
    rw [hinside, foldlM_append] at hnested
    obtain ⟨depth, hdepth, _⟩ := Option.bind_eq_some_iff.1 hnested
    have hopen : before.foldlM Lexeme.nest 1 = some 0 := hclosed.nested 0
    rw [foldlM_nest_succ hdepth] at hopen
    cases hopen

end Unbroken

namespace Reads

variable {table : OperatorTable} {bound : Option Nat} {lexemes : List Lexeme} {tree : OperatorTree}

theorem closed (h : Reads table bound lexemes tree) : Closed lexemes := by
  induction h with
  | atom bound word => exact ⟨fun _ => rfl, [], _, rfl, rfl⟩
  | group _ _ ih => exact ih.group
  | unary _ op _ ih => exact ih.cons (unary_ne_paren op)
  | twoReferences _ _ ih => exact ih.cons (by decide)
  | binary hlevel _ _ _ ihLeft ihRight => exact ihLeft.append (ihRight.cons (table.ne_paren hlevel))

theorem unbroken (h : Reads table none lexemes tree) : Unbroken lexemes := by
  generalize hbound : (none : Option Nat) = bound at h
  induction h with
  | atom _ word => exact .word word
  | group _ hinside _ => exact .group hinside.closed
  | unary _ op _ ih => exact (ih rfl).cons (unary_ne_paren op)
  | twoReferences _ _ ih => exact (ih rfl).cons (by decide)
  | binary => cases hbound

/-- Without binary operators outside of parentheses the bound does not matter. -/
theorem rebound (h : Reads table none lexemes tree) (bound : Option Nat) : Reads table bound lexemes tree := by
  cases h with
  | atom _ word => exact .atom bound word
  | group _ hinside => exact .group bound hinside
  | unary _ op hoperand => exact .unary bound op hoperand
  | twoReferences _ hoperand => exact .twoReferences bound hoperand

/-- The last step of a reading: a binary operator, or what it does not break. -/
theorem none_or_binary (h : Reads table bound lexemes tree) :
    Reads table none lexemes tree ∨
      ∃ mark left right leftTree rightTree, lexemes = left ++ .mark mark :: right ∧
        tree = .binary mark leftTree rightTree ∧ (∃ level, table.level? mark = some level) ∧
        Reads table (table.left mark) left leftTree ∧ Reads table (table.right mark) right rightTree := by
  cases h with
  | atom _ word => exact .inl (.atom none word)
  | group _ hinside => exact .inl (.group none hinside)
  | unary _ op hoperand => exact .inl (.unary none op hoperand)
  | twoReferences _ hoperand => exact .inl (.twoReferences none hoperand)
  | binary hlevel _ hleft hright => exact .inr ⟨_, _, _, _, _, rfl, rfl, ⟨_, hlevel⟩, hleft, hright⟩

theorem none_of_unbroken (h : Reads table bound lexemes tree) (hunbroken : Unbroken lexemes) :
    Reads table none lexemes tree := by
  obtain hnone | ⟨_, left, right, _, _, rfl, _, _, hleft, _⟩ := h.none_or_binary
  · exact hnone
  · exact absurd hleft.closed (hunbroken left _ right rfl)

/-- What is read by the strictest table is read by every other one. -/
theorem of_strict (table : OperatorTable) (h : Reads .strict bound lexemes tree) :
    bound = none ∨ bound = some 0 → Reads table bound lexemes tree := by
  induction h with
  | atom bound word => exact fun _ => .atom bound word
  | group bound _ ih => exact fun _ => .group bound (ih (.inr rfl))
  | unary bound op _ ih => exact fun _ => .unary bound op (ih (.inl rfl))
  | twoReferences bound _ ih => exact fun _ => .twoReferences bound (ih (.inl rfl))
  | @binary bound level mark _ _ _ _ hlevel _ _ _ ihLeft ihRight =>
    intro hbound
    obtain ⟨op, hop⟩ : ∃ op : BinaryOp, op.spelling.toList = mark := by
      simp only [OperatorTable.strict] at hlevel
      split at hlevel
      · next hany =>
        obtain ⟨op, _, hop⟩ := any_eq_true.1 hany
        exact ⟨op, of_decide_eq_true hop⟩
      · cases hlevel
    obtain ⟨level', hlevel'⟩ := table.knows op
    rw [hop] at hlevel'
    obtain rfl : bound = 0 := by simpa using hbound
    exact .binary hlevel' (Nat.zero_le _) ((ihLeft (.inl rfl)).rebound _) ((ihRight (.inl rfl)).rebound _)

theorem group_inv (h : Reads table none (.mark ['('] :: (inside ++ [.mark [')']])) tree) :
    Reads table (some 0) inside tree := by
  generalize hlexemes : Lexeme.mark ['('] :: (inside ++ [.mark [')']]) = lexemes at h
  cases h with
  | atom => cases hlexemes
  | group _ hinside =>
    injection hlexemes with _ heq
    rwa [append_cancel_right heq]
  | unary _ op =>
    injection hlexemes with hmark _
    injection hmark with hmark
    exact absurd hmark.symm (unary_ne_paren op).1
  | twoReferences => cases hlexemes

/-- What starts with a unary operator is read as that operator and an operand. -/
theorem unary_inv {op : UnaryOp}
    (h : Reads table none (.mark op.spelling.toList :: operand) tree) :
    ∃ inner, tree = .unary op inner ∧ Reads table none operand inner := by
  generalize hlexemes : Lexeme.mark op.spelling.toList :: operand = lexemes at h
  cases h with
  | atom => cases hlexemes
  | group =>
    injection hlexemes with hmark _
    injection hmark with hmark
    exact absurd hmark (unary_ne_paren op).1
  | unary _ op' hoperand =>
    injection hlexemes with hmark heq
    injection hmark with hmark
    cases unary_spelling_inj hmark
    cases heq
    exact ⟨_, rfl, hoperand⟩
  | twoReferences =>
    injection hlexemes with hmark _
    injection hmark with hmark
    exact absurd hmark (unary_ne_twoReferences op)

/-- The mark `&&` before an operand is read as two references. -/
theorem twoReferences_inv (h : Reads table none (.mark ['&', '&'] :: operand) tree) :
    ∃ inner, tree = .unary .reference (.unary .reference inner) ∧ Reads table none operand inner := by
  generalize hlexemes : Lexeme.mark ['&', '&'] :: operand = lexemes at h
  cases h with
  | atom | group => cases hlexemes
  | unary _ op =>
    injection hlexemes with hmark _
    injection hmark with hmark
    exact absurd hmark.symm (unary_ne_twoReferences op)
  | twoReferences _ hoperand =>
    cases hlexemes
    exact ⟨_, rfl, hoperand⟩

/-- A closed start that a mark follows ends where the left operand of the one binary operator does, if the operands
    are unbroken. -/
theorem split_unique {mark' : List Char} {left' right' : List Lexeme}
    (hmark : mark ≠ ['('] ∧ mark ≠ [')']) (hleft : Closed left) (hunbroken : Unbroken left)
    (hunbroken' : Unbroken right) (hleft' : Closed left')
    (h : left ++ .mark mark :: right = left' ++ .mark mark' :: right') :
    left' = left ∧ mark' = mark ∧ right' = right := by
  rcases append_eq_append_iff.1 h with ⟨extra, rfl, hextra⟩ | ⟨extra, rfl, hextra⟩
  · cases extra with
    | nil =>
      cases hextra
      exact ⟨append_nil _, rfl, rfl⟩
    | cons first extra =>
      cases hextra
      exact absurd (hleft.of_append hmark hleft') (hunbroken' extra _ right' rfl)
  · cases extra with
    | nil =>
      cases hextra
      exact ⟨(append_nil _).symm, rfl, rfl⟩
    | cons first extra =>
      cases hextra
      exact absurd hleft' (hunbroken left' _ extra rfl)

/-- What is read by the strictest table is read as nothing else by any table. -/
theorem unique (h : Reads .strict bound lexemes tree) {bound' : Option Nat} {tree' : OperatorTree}
    (h' : Reads table bound' lexemes tree') : tree' = tree := by
  induction h generalizing bound' tree' with
  | atom _ word =>
    cases h'.none_of_unbroken (.word word)
    rfl
  | group _ hinside ih => exact ih (h'.none_of_unbroken (.group hinside.closed)).group_inv
  | unary _ op hoperand ih =>
    obtain ⟨inner, rfl, hinner⟩ := (h'.none_of_unbroken (hoperand.unbroken.cons (unary_ne_paren op))).unary_inv
    rw [ih hinner]
  | twoReferences _ hoperand ih =>
    obtain ⟨inner, rfl, hinner⟩ := (h'.none_of_unbroken (hoperand.unbroken.cons (by decide))).twoReferences_inv
    rw [ih hinner]
  | binary hlevel _ hleft hright ihLeft ihRight =>
    obtain hnone | ⟨mark', left', right', _, _, heq, rfl, _, hleft', hright'⟩ := h'.none_or_binary
    · exact absurd hleft.closed (hnone.unbroken _ _ _ rfl)
    · obtain ⟨rfl, rfl, rfl⟩ := split_unique (OperatorTable.strict.ne_paren hlevel) hleft.closed hleft.unbroken
        hright.unbroken hleft'.closed heq
      rw [ihLeft hleft', ihRight hright']

end Reads

end Rust

end Smpl
