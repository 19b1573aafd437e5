import Smpl.Proofs.Decorated.Places
import Smpl.Proofs.Print.RoundTrip
import Smpl.Proofs.Rust.Precedence
import Smpl.Proofs.Token.Lexeme
import Smpl.Rust.Crate

namespace Smpl

open List

namespace Rust

variable {c : Char} {rest text : List Char} {parts : List Lexeme} {tree : OperatorTree}

theorem lexemes_space (rest : List Char) : lexemes (' ' :: rest) = lexemes rest := by
  have hblank : isBlank ' ' = true := rfl
  rw [lexemes, if_pos hblank]

theorem not_isBlank_of_isWordPart (h : isWordPart c = true) : isBlank c = false := by
  rw [Bool.eq_false_iff]
  intro hblank
  simp only [isBlank, Bool.or_eq_true, decide_eq_true_eq] at hblank
  obtain ((rfl | rfl) | rfl) | rfl := hblank <;> cases h

theorem lexemes_word {word : List Char} (hne : word ≠ []) (hword : ∀ c ∈ word, isWordPart c = true)
    (hrest : Ends isWordPart rest) : lexemes (word ++ rest) = .word word :: lexemes rest := by
  obtain ⟨c, more, rfl⟩ := exists_cons_of_ne_nil hne
  obtain ⟨hc, hmore⟩ := forall_mem_cons.1 hword
  obtain ⟨htake, hdrop⟩ := takeWhile_append_of_ends hmore hrest
  simp [lexemes, not_isBlank_of_isWordPart hc, hc, htake, hdrop]

theorem lexemes_mark (mark : List Char) (hblank : isBlank c = false) (hword : isWordPart c = false)
    (hmark : markAt c (mark ++ rest) = c :: mark) :
    lexemes (c :: (mark ++ rest)) = .mark (c :: mark) :: lexemes rest := by
  rw [lexemes, hmark]
  simp [hblank, hword]

/-- What may follow the text of an operand. -/
def Stops (rest : List Char) : Prop :=
  Ends (fun c => c ≠ ' ' && c ≠ ')') rest

theorem Stops.ends (h : Stops rest) : Ends isWordPart rest := by
  intro c t heq
  have hc := h c t heq
  rw [Bool.eq_false_iff]
  intro hword
  simp only [Bool.and_eq_false_iff, decide_eq_false_iff_not, ne_eq, not_not] at hc
  obtain rfl | rfl := hc <;> cases hword

/-- A text is split into words and marks, wherever it may be followed by something. -/
def Splits (text : List Char) (parts : List Lexeme) : Prop :=
  ∀ rest, Stops rest → lexemes (text ++ rest) = parts ++ lexemes rest

theorem Splits.word {word : List Char} (hne : word ≠ []) (hword : ∀ c ∈ word, isWordPart c = true) :
    Splits word [.word word] :=
  fun _ hrest => lexemes_word hne hword hrest.ends

theorem markAt_paren (rest : List Char) : markAt '(' rest = ['('] ∧ markAt ')' rest = [')'] := by
  simp [markAt, longMarks, List.isPrefixOf]

theorem Splits.group (h : Splits text parts) :
    Splits ('(' :: text ++ [')']) (.mark ['('] :: (parts ++ [.mark [')']])) := by
  intro rest _
  have hclosing : Stops (')' :: rest) := by
    rintro c t ⟨⟩
    rfl
  have htext : '(' :: text ++ [')'] ++ rest = '(' :: (text ++ ')' :: rest) := by simp
  have hopen : lexemes ('(' :: (text ++ ')' :: rest)) = .mark ['('] :: lexemes (text ++ ')' :: rest) :=
    lexemes_mark [] rfl rfl (markAt_paren _).1
  have hclose : lexemes (')' :: rest) = .mark [')'] :: lexemes rest := lexemes_mark [] rfl rfl (markAt_paren _).2
  rw [htext, hopen, h _ hclosing, hclose]
  simp

/-- The characters with which the text of an operand starts, after references. -/
def startsOperand (c : Char) : Bool :=
  isWordPart c || c = '(' || c = '-' || c = '!' || c = '*'

/-- A prefix operator does not run into the operand. -/
theorem markAt_unary (op : UnaryOp) {d : Char} (hd : startsOperand d = true ∨ op ≠ .reference ∧ d = '&')
    (rest : List Char) :
    ∃ c, op.spelling.toList = [c] ∧ isBlank c = false ∧ isWordPart c = false ∧ markAt c (d :: rest) = [c] := by
  have hequal : '=' ≠ d ∧ '>' ≠ d := by
    constructor <;> rintro rfl <;> obtain hd | ⟨_, hd⟩ := hd <;> cases hd
  have hreference : op = .reference → '&' ≠ d := by
    rintro rfl rfl
    exact absurd hd (by decide)
  cases op with
  | negate => exact ⟨'-', rfl, rfl, rfl, by simp [markAt, longMarks, List.isPrefixOf, hequal]⟩
  | not => exact ⟨'!', rfl, rfl, rfl, by simp [markAt, longMarks, List.isPrefixOf, hequal]⟩
  | reference => exact ⟨'&', rfl, rfl, rfl, by simp [markAt, longMarks, List.isPrefixOf, hequal, hreference]⟩
  | dereference => exact ⟨'*', rfl, rfl, rfl, by simp [markAt, longMarks, List.isPrefixOf, hequal]⟩

theorem markAt_binary (op : BinaryOp) (rest : List Char) :
    ∃ c more, op.spelling.toList = c :: more ∧ isBlank c = false ∧ isWordPart c = false ∧
      markAt c (more ++ ' ' :: rest) = c :: more := by
  cases op <;> exact ⟨_, _, rfl, rfl, rfl, rfl⟩

/-- A text that is read as a tree without binary operators outside of parentheses. -/
structure OperandParts (text : List Char) (parts : List Lexeme) (tree : OperatorTree) : Prop where
  splits : Splits text parts
  reads : Reads .strict none parts tree

/-- As many references to something. -/
def references : Nat → OperatorTree → OperatorTree
  | 0, tree => tree
  | count + 1, tree => .unary .reference (references count tree)

/-- The text of an operand. References are told apart from what they refer to, since they are split in pairs from the
    first one on. -/
def OperandText (text : List Char) (tree : OperatorTree) : Prop :=
  ∃ count c core parts inner, text = List.replicate count '&' ++ c :: core ∧ startsOperand c = true ∧
    OperandParts (c :: core) parts inner ∧ tree = references count inner

/-- The text of an expression, which may be a binary operation. -/
def WholeText (text : List Char) (tree : OperatorTree) : Prop :=
  ∃ parts, Splits text parts ∧ Reads .strict (some 0) parts tree

theorem OperandText.exists_parts (h : OperandText text tree) : ∃ parts, OperandParts text parts tree := by
  obtain ⟨count, c, core, parts, inner, rfl, hstarts, hparts, rfl⟩ := h
  induction count using Nat.strongRecOn with
  | ind count ih =>
    rcases count with _ | _ | count
    · exact ⟨parts, hparts⟩
    · refine ⟨.mark ['&'] :: parts, fun rest hrest => ?_, .unary none .reference hparts.reads⟩
      obtain ⟨d, hd, hblank, hword, hmark⟩ := markAt_unary .reference (.inl hstarts) (core ++ rest)
      cases hd
      exact (lexemes_mark [] hblank hword hmark).trans (congrArg _ (hparts.splits rest hrest))
    · obtain ⟨more, hmore⟩ := ih count (by omega)
      refine ⟨.mark ['&', '&'] :: more, fun rest hrest => ?_, .twoReferences none hmore.reads⟩
      have hmark : ∀ rest, markAt '&' ('&' :: rest) = ['&', '&'] := fun _ => rfl
      exact (lexemes_mark ['&'] rfl rfl (hmark _)).trans (congrArg _ (hmore.splits rest hrest))

theorem OperandText.whole (h : OperandText text tree) : WholeText text tree := by
  obtain ⟨parts, hparts⟩ := h.exists_parts
  exact ⟨parts, hparts.splits, hparts.reads.rebound _⟩

/-- A text that starts as an operand does and is one. -/
theorem OperandParts.operandText {core : List Char} (h : OperandParts (c :: core) parts tree)
    (hstarts : startsOperand c = true) : OperandText (c :: core) tree :=
  ⟨0, c, core, parts, tree, rfl, hstarts, h, rfl⟩

theorem OperandText.word {word : List Char} (hne : word ≠ []) (hword : ∀ c ∈ word, isWordPart c = true) :
    OperandText word (atom word) := by
  have hparts : OperandParts word [.word word] (atom word) := ⟨.word hne hword, .atom none word⟩
  obtain ⟨c, more, rfl⟩ := exists_cons_of_ne_nil hne
  exact hparts.operandText (by simp [startsOperand, hword c mem_cons_self])

theorem WholeText.group (h : WholeText text tree) : OperandText ('(' :: text ++ [')']) tree := by
  obtain ⟨parts, hsplits, hreads⟩ := h
  exact OperandParts.operandText ⟨hsplits.group, .group none hreads⟩ rfl

theorem OperandText.reference (h : OperandText text tree) : OperandText ('&' :: text) (.unary .reference tree) := by
  obtain ⟨count, c, core, parts, inner, rfl, hstarts, hparts, rfl⟩ := h
  exact ⟨count + 1, c, core, parts, inner, rfl, hstarts, hparts, rfl⟩

theorem OperandText.exists_head (h : OperandText text tree) :
    ∃ d more, text = d :: more ∧ (startsOperand d = true ∨ d = '&') := by
  obtain ⟨count, c, core, _, _, rfl, hstarts, _⟩ := h
  cases count with
  | zero => exact ⟨c, core, rfl, .inl hstarts⟩
  | succ count => exact ⟨'&', _, rfl, .inr rfl⟩

/-- A prefix operator other than a reference keeps apart from its operand. -/
theorem OperandText.unary {op : UnaryOp} (hop : op ≠ .reference) (h : OperandText text tree) :
    OperandText (op.spelling.toList ++ text) (.unary op tree) := by
  obtain ⟨d, more, htext, hstarts⟩ := h.exists_head
  obtain ⟨parts, hparts⟩ := h.exists_parts
  have hparts' : OperandParts (op.spelling.toList ++ text) (.mark op.spelling.toList :: parts) (.unary op tree) := by
    refine ⟨fun rest hrest => ?_, .unary none op hparts.reads⟩
    obtain ⟨c, hc, hblank, hword, hmark⟩ := markAt_unary op (hstarts.imp_right (⟨hop, ·⟩)) (more ++ rest)
    rw [← cons_append, ← htext] at hmark
    rw [hc]
    exact (lexemes_mark [] hblank hword hmark).trans (congrArg _ (hparts.splits rest hrest))
  cases op with
  | reference => exact absurd rfl hop
  | negate | not | dereference => exact hparts'.operandText rfl

/-- Two operands around a binary operator are read as its application. -/
theorem WholeText.binary (op : BinaryOp) {left right : List Char} {leftTree rightTree : OperatorTree}
    (hleft : OperandText left leftTree) (hright : OperandText right rightTree) :
    WholeText (left ++ ' ' :: (op.spelling.toList ++ ' ' :: right))
      (.binary op.spelling.toList leftTree rightTree) := by
  obtain ⟨leftParts, hleft⟩ := hleft.exists_parts
  obtain ⟨rightParts, hright⟩ := hright.exists_parts
  obtain ⟨level, hlevel⟩ := OperatorTable.strict.knows op
  refine ⟨leftParts ++ .mark op.spelling.toList :: rightParts, fun rest hrest => ?_,
    .binary hlevel (Nat.zero_le _) hleft.reads hright.reads⟩
  have hspace : ∀ text, Stops (' ' :: text) := by
    rintro text c t ⟨⟩
    rfl
  obtain ⟨c, more, hop, hblank, hword, hmark⟩ := markAt_binary op (right ++ rest)
  have hoperator : lexemes (op.spelling.toList ++ ' ' :: (right ++ rest)) =
      .mark op.spelling.toList :: lexemes (' ' :: (right ++ rest)) := by
    rw [hop]
    exact lexemes_mark more hblank hword hmark
  rw [append_assoc, cons_append, append_assoc, cons_append, hleft.splits _ (hspace _), lexemes_space,
    hoperator, lexemes_space, hright.splits _ hrest, append_assoc, cons_append]

theorem isWordPart_of_isIdentifierPart (h : isIdentifierPart c = true) : isWordPart c = true := by
  rw [isWordPart, h, Bool.true_or]

theorem operandText_integer (value : Nat) : OperandText (Nat.toDigits 10 value) (.integer value) := by
  have hdigits : ∀ d ∈ Nat.toDigits 10 value, d.isDigit = true := Decimal.isDigit_toDigits
  have hatom : atom (Nat.toDigits 10 value) = .integer value := by
    rw [atom, if_pos (all_eq_true.2 hdigits), Nat.ofDigitChars_ten_toDigits]
  rw [← hatom]
  exact .word Nat.toDigits_ne_nil fun d hd =>
    isWordPart_of_isIdentifierPart (isIdentifierPart_of_isDigit (hdigits d hd))

theorem rawName_of_isIdentifierPart {word : List Char} (h : ∀ c ∈ word, isIdentifierPart c = true) :
    rawName word = word := by
  unfold rawName
  split
  · exact absurd (h '#' (by simp)) (by decide)
  · rfl

theorem toList_identifier (name : String) :
    (identifier name).toList = name.toList ∨ (identifier name).toList = 'r' :: '#' :: name.toList := by
  unfold identifier
  split
  · exact .inr (by rw [String.toList_append]; rfl)
  · exact .inl rfl

/-- The identifier of a name is a word that denotes the name. -/
theorem operandText_name {name : String} (hname : isName name = true) :
    OperandText (identifier name).toList (.name name) := by
  obtain ⟨c, more, hlist, hstart, hpart, hreserved⟩ := exists_of_isName hname
  have hword : ∀ d ∈ name.toList, isWordPart d = true := fun d hd =>
    isWordPart_of_isIdentifierPart (hpart d (hlist ▸ hd))
  rcases toList_identifier name with htext | htext
  · have hdigit : c.isDigit = false := by
      rw [Bool.eq_false_iff]
      intro hdigit
      rw [(not_isIdentifierStart_of_isDigit hdigit).1] at hstart
      cases hstart
    have hnumber : ¬ name.toList.all Char.isDigit = true := by simp [hlist, hdigit]
    have htrue : name.toList ≠ ['t', 'r', 'u', 'e'] := fun h => hreserved .trueValue (String.toList_inj.1 h)
    have hfalse : name.toList ≠ ['f', 'a', 'l', 's', 'e'] := fun h => hreserved .falseValue (String.toList_inj.1 h)
    have hatom : atom name.toList = .name name := by
      rw [atom, if_neg hnumber, if_neg htrue, if_neg hfalse, hlist, rawName_of_isIdentifierPart hpart, ← hlist,
        String.ofList_toList]
    rw [htext, ← hatom]
    exact .word (by rw [hlist]; exact cons_ne_nil _ _) hword
  · have hatom : atom ('r' :: '#' :: name.toList) = .name name := by
      have hnumber : ¬ ('r' :: '#' :: name.toList).all Char.isDigit = true := by simp
      rw [atom, if_neg hnumber, if_neg (by simp), if_neg (by simp), rawName, String.ofList_toList]
    rw [htext, ← hatom]
    exact .word (cons_ne_nil _ _) (forall_mem_cons.2 ⟨rfl, forall_mem_cons.2 ⟨rfl, hword⟩⟩)

end Rust

/-- The tree of operators that an expression is, if it is one over integer literals that Rust takes as they are, boolean
    literals and bindings that are copied. Parentheses are left out. -/
def TypedExpr.operatorTree? : TypedExpr → Option OperatorTree
  | .literal _ (.integer value) => if value ≤ 2147483647 then some (.integer value) else none
  | .literal _ (.bool value) => some (.bool value)
  | .binding _ _ (.binding symbol) => if symbol.type.isCopy then some (.name symbol.name) else none
  | .unary _ op operand _ => operand.operatorTree?.map (.unary op)
  | .binary _ op left right _ =>
    left.operatorTree?.bind fun leftTree => right.operatorTree?.map (.binary op.spelling.toList leftTree)
  | .paren _ inner => inner.operatorTree?
  | _ => none

/-- An expression of operators in which names and literals are those of texts, and what is dereferenced is copied. -/
inductive TypedExpr.Operates : TypedExpr → OperatorTree → Prop
  | integer {loc : Location} {value : Nat} :
    value ≤ 2147483647 → Operates (.literal loc (.integer value)) (.integer value)
  | bool {loc : Location} {value : Bool} : Operates (.literal loc (.bool value)) (.bool value)
  | name {loc : Location} {path : Path} {symbol : Local} :
    isName symbol.name = true → symbol.type.isCopy = true →
    Operates (.binding loc path (.binding symbol)) (.name symbol.name)
  | unary {loc : Location} {op : UnaryOp} {operand : TypedExpr} {type : Ty} {tree : OperatorTree} :
    (op = .dereference → type.isCopy = true) → Operates operand tree →
    Operates (.unary loc op operand type) (.unary op tree)
  | binary {loc : Location} {op : BinaryOp} {left right : TypedExpr} {type : Ty} {leftTree rightTree : OperatorTree} :
    Operates left leftTree → Operates right rightTree →
    Operates (.binary loc op left right type) (.binary op.spelling.toList leftTree rightTree)
  | paren {loc : Location} {inner : TypedExpr} {tree : OperatorTree} :
    Operates inner tree → Operates (.paren loc inner) tree

namespace Rust

variable {setting : Setting} {e : TypedExpr} {tree : OperatorTree} {text : String}

/-- The text of an expression of operators, and as an operand of others. -/
structure OperatorText (setting : Setting) (e : TypedExpr) (tree : OperatorTree) (text : String) : Prop where
  expr : setting.expr e = .ok text
  whole : WholeText text.toList tree
  operand : OperandText (operand e text).toList tree

theorem OperatorText.of_operand (hexpr : setting.expr e = .ok text) (he : e.isBinary = false)
    (h : OperandText text.toList tree) : OperatorText setting e tree text where
  expr := hexpr
  whole := h.whole
  operand := by
    rw [Rust.operand, he]
    exact h

theorem toList_parens (text : String) : ("(" ++ text ++ ")").toList = '(' :: text.toList ++ [')'] := by
  simp

/-- The place that an expression of operators names is its text. -/
theorem OperatorText.place_eq {place : String} (hlowers : OperatorText setting e tree text) (h : e.Operates tree)
    (hplace : place? e = some place) : place = Rust.operand e text := by
  cases h with
  | name _ hcopy =>
    have htext := hlowers.expr
    rw [Setting.expr, Setting.referent, read, if_pos hcopy] at htext
    cases htext
    cases hplace
    rfl
  | integer | bool | unary | binary | paren => cases hplace

/-- Where nothing is cloned, a prefix operation is the operator before its operand. -/
theorem unaryText_eq {op : UnaryOp} {inner : TypedExpr} {type : Ty} (hcopy : op = .dereference → type.isCopy = true)
    (hplace : ∀ place, place? inner = some place → place = Rust.operand inner text) :
    unaryText op inner text type = op.spelling ++ Rust.operand inner text := by
  cases op with
  | negate | not => rfl
  | dereference =>
    rw [unaryText, if_pos (hcopy rfl)]
    rfl
  | reference =>
    rw [unaryText]
    cases hinner : place? inner with
    | none => rfl
    | some place =>
      obtain rfl := hplace place hinner
      by_cases hempty : Rust.operand inner text = "" <;> simp [Option.filter, hempty] <;> rfl

/-- An expression of operators has a Rust text that is read as its tree. -/
theorem exists_operatorText (h : e.Operates tree) (setting : Setting) : ∃ text, OperatorText setting e tree text := by
  induction h with
  | @integer loc value hvalue =>
    have htext : setting.expr (.literal loc (.integer value)) = .ok (Int.repr value) := by
      have hsmall : ¬ (value : Int) > 2147483647 := by omega
      rw [Setting.expr, literalText, if_neg hsmall]
      rfl
    refine ⟨_, .of_operand htext rfl ?_⟩
    rw [toList_repr_natCast]
    exact operandText_integer value
  | @bool loc value =>
    cases value with
    | false => exact ⟨"false", .of_operand rfl rfl (.word (cons_ne_nil _ _) (all_eq_true.1 rfl))⟩
    | true => exact ⟨"true", .of_operand rfl rfl (.word (cons_ne_nil _ _) (all_eq_true.1 rfl))⟩
  | @name loc path symbol hname hcopy =>
    refine ⟨identifier symbol.name, .of_operand ?_ rfl (operandText_name hname)⟩
    rw [Setting.expr, Setting.referent, read, if_pos hcopy]
  | @unary loc op inner type tree hcopy hinner ih =>
    obtain ⟨text, hlowers⟩ := ih
    refine ⟨op.spelling ++ operand inner text, .of_operand ?_ rfl ?_⟩
    · rw [Setting.expr, hlowers.expr, ok_bind, pure_eq_ok, unaryText_eq hcopy fun place hplace => ?_]
      exact hlowers.place_eq hinner hplace
    · rw [String.toList_append]
      by_cases hop : op = .reference
      · subst hop
        exact hlowers.operand.reference
      · exact hlowers.operand.unary hop
  | @binary loc op left right type leftTree rightTree _ _ ihLeft ihRight =>
    obtain ⟨leftText, hleft⟩ := ihLeft
    obtain ⟨rightText, hright⟩ := ihRight
    have hwhole := WholeText.binary op hleft.operand hright.operand
    have htext : (Rust.operand left leftText ++ " " ++ op.spelling ++ " " ++ Rust.operand right rightText).toList =
        (Rust.operand left leftText).toList ++
          ' ' :: (op.spelling.toList ++ ' ' :: (Rust.operand right rightText).toList) := by
      simp
    rw [← htext] at hwhole
    refine ⟨_, ⟨?_, hwhole, ?_⟩⟩
    · rw [Setting.expr, hleft.expr, ok_bind, hright.expr, ok_bind]
      rfl
    · rw [Rust.operand, TypedExpr.isBinary, if_pos rfl, toList_parens]
      exact hwhole.group
  | @paren loc inner tree _ ih =>
    obtain ⟨text, hlowers⟩ := ih
    refine ⟨"(" ++ text ++ ")", .of_operand ?_ rfl ?_⟩
    · rw [Setting.expr, hlowers.expr]
      rfl
    · rw [toList_parens]
      exact hlowers.whole.group

end Rust

/-- Whether values of a type are copied, and so are those that it refers to. -/
def Ty.staysCopy : Ty → Bool
  | .reference target => target.staysCopy
  | type => type.isCopy

theorem Ty.isCopy_of_staysCopy {type : Ty} (h : type.staysCopy = true) : type.isCopy = true := by
  cases type with
  | reference => rfl
  | _ => exact h

theorem Ty.staysCopy_of_isCopy {type : Ty} (htype : ∀ target, type ≠ .reference target) (h : type.isCopy = true) :
    type.staysCopy = true := by
  cases type with
  | reference target => exact absurd rfl (htype target)
  | _ => exact h

/-- A sign before a value that stays copied gives such a value. -/
theorem Context.staysCopy_of_unaryType {op : UnaryOp} {operand type : Ty} {loc : Location}
    (h : unaryType op operand loc = .ok type) (hcopy : operand.staysCopy = true) : type.staysCopy = true := by
  rw [unaryType_eq_ok_iff] at h
  cases op with
  | negate => exact h.1 ▸ hcopy
  | not => exact h.1 ▸ rfl
  | reference => exact h ▸ hcopy
  | dereference =>
    rw [h] at hcopy
    exact hcopy

theorem Context.staysCopy_of_binaryType {op : BinaryOp} {left right : TypedExpr} {type : Ty}
    (h : binaryType op left right = .ok type) (hcopy : left.type.staysCopy = true) : type.staysCopy = true := by
  rw [binaryType_eq_ok_iff] at h
  split at h
  · exact h.2.2 ▸ rfl
  split at h
  · exact h.2.2 ▸ rfl
  · rw [h.2.2]
    split
    · rfl
    · exact hcopy

/-- No written type denotes a reference, where type names stand for parameters. -/
theorem TypeScope.ne_reference_of_resolve {scope : TypeScope}
    (hnames : ∀ entry ∈ scope.typeNames, ∃ param, entry.2 = .param param) {type : TypeExpr} {resolved : TypedTypeExpr}
    (h : scope.resolve type = .ok resolved) : ∀ target, resolved.type ≠ .reference target := by
  intro target
  cases type with
  | named loc path args =>
    cases resolve_named_eq_ok_iff.1 h with
    | simple hsimple =>
      rcases simple?_eq_ok_some_iff.1 hsimple with ⟨_, hprimitive⟩ | ⟨_, _, hlookup⟩
      · obtain ⟨primitive, _, rfl⟩ := Option.map_eq_some_iff.1 hprimitive
        nofun
      · obtain ⟨param, rfl⟩ := hnames _ (mem_of_lookup hlookup)
        nofun
    | struct | opaqueType => nofun
  | array loc element length =>
    obtain ⟨part, _, rfl⟩ := resolve_array_eq_ok_iff.1 h
    nofun
  | function loc params result =>
    obtain ⟨_, _, _, _, rfl⟩ := resolve_function_eq_ok_iff.1 h
    nofun
  | unknown node => cases h

namespace Context

variable {ctx : Context} (hnames : ∀ entry ∈ ctx.typeNames, ∃ param, entry.2 = .param param) {scope : Scope}
  (hscope : ∀ {name symbol}, scope.lookup name = some symbol → ctx.Annotates symbol)
include hnames hscope

/-- A checked expression that is a tree of operators over what texts have for names and literals. -/
theorem operates_of_expr (e : TypedExpr) {written : Expr} (h : ctx.expr scope written = .ok e)
    (hspellable : e.erase.Spellable) {tree : OperatorTree} (htree : e.operatorTree? = some tree) :
    e.Operates tree ∧ e.type.staysCopy = true := by
  induction e using TypedExpr.induct generalizing written tree with
  | literal loc value =>
    cases value with
    | integer value =>
      cases hspellable with
      | literal hvalue =>
        simp only [Literal.isSpellable, Bool.and_eq_true, decide_eq_true_eq] at hvalue
        obtain ⟨value, rfl⟩ := Int.eq_ofNat_of_zero_le hvalue.1
        simp only [TypedExpr.operatorTree?, Option.ite_none_right_eq_some, Option.some.injEq] at htree
        obtain ⟨hsmall, rfl⟩ := htree
        exact ⟨.integer (by omega), rfl⟩
    | bool value =>
      cases htree
      exact ⟨.bool, rfl⟩
    | float | string => cases htree
  | binding loc path referent =>
    cases referent with
    | binding symbol =>
      simp only [TypedExpr.operatorTree?, Option.ite_none_right_eq_some, Option.some.injEq] at htree
      obtain ⟨hcopy, rfl⟩ := htree
      cases expr_eq_ok_iff.1 h with
      | binding hfinds =>
        cases hfinds with
        | binding hlocal =>
          obtain ⟨_, hlookup⟩ := local?_eq_ok_some_iff.1 hlocal
          obtain ⟨_, resolved, hresolved, htype⟩ := hscope hlookup
          have hreference := TypeScope.ne_reference_of_resolve hnames hresolved
          rw [← htype] at hreference
          refine ⟨.name ?_ hcopy, Ty.staysCopy_of_isCopy hreference hcopy⟩
          cases hspellable with
          | binding hspelled => exact isName_of_local? hlocal hspelled
    | function => cases htree
  | field | call | init => cases htree
  | unary loc op operand type ih =>
    obtain ⟨inner, hinner, rfl⟩ := Option.map_eq_some_iff.1 htree
    cases expr_eq_ok_iff.1 h with
    | unary hpart htype =>
      cases hspellable with
      | unary hspelled =>
        obtain ⟨hoperates, hcopy⟩ := ih hpart hspelled hinner
        have hstays := staysCopy_of_unaryType htype hcopy
        exact ⟨.unary (fun _ => Ty.isCopy_of_staysCopy hstays) hoperates, hstays⟩
  | binary loc op left right type ihLeft ihRight =>
    obtain ⟨leftTree, hleft, htree⟩ := Option.bind_eq_some_iff.1 htree
    obtain ⟨rightTree, hright, rfl⟩ := Option.map_eq_some_iff.1 htree
    cases expr_eq_ok_iff.1 h with
    | binary hfirst hsecond htype =>
      cases hspellable with
      | binary hspelled hspelled' =>
        obtain ⟨hoperates, hcopy⟩ := ihLeft hfirst hspelled hleft
        exact ⟨.binary hoperates (ihRight hsecond hspelled' hright).1, staysCopy_of_binaryType htype hcopy⟩
  | paren loc inner ih =>
    cases expr_eq_ok_iff.1 h with
    | paren hpart =>
      cases hspellable with
      | paren hspelled =>
        obtain ⟨hoperates, hcopy⟩ := ih hpart hspelled htree
        exact ⟨.paren hoperates, hcopy⟩

end Context

namespace Program

variable {trees : List Module} {prelude : Option Module} {program : Program}

/-- In an accepted program of modules as texts have them, an expression of operators over small integer literals,
    boolean literals and bindings that are copied has a Rust text that every table of operators reads as the same tree,
    and as no other. -/
theorem reads_operators_of_ofModules (hprogram : ofModules trees prelude = .ok program)
    (hspellable : ∀ tree ∈ prelude.toList ++ trees, tree.Spellable) :
    ∀ module_ ∈ program.modules, ∀ item ∈ module_.items, ∀ e ∈ item.exprs, ∀ tree, e.operatorTree? = some tree →
      ∀ setting : Rust.Setting, ∃ text, setting.expr e = .ok text ∧ ∀ table,
        Rust.Reads table (some 0) (Rust.lexemes text.toList) tree ∧
          ∀ tree', Rust.Reads table (some 0) (Rust.lexemes text.toList) tree' → tree' = tree := by
  intro module_ hmodule item hitem e he tree htree setting
  obtain ⟨ctx, _, _, hnames, scope, written, hwritten, hscope⟩ := exists_expr_of_mem_exprs hprogram hmodule hitem he
  have hspelled := spellable_of_mem_exprs hprogram hmodule hitem he hspellable
  obtain ⟨hoperates, _⟩ := Context.operates_of_expr hnames hscope e hwritten hspelled htree
  obtain ⟨text, htext⟩ := Rust.exists_operatorText hoperates setting
  obtain ⟨parts, hsplits, hreads⟩ := htext.whole
  have hlexemes : Rust.lexemes text.toList = parts := by
    have := hsplits [] nofun
    simpa [Rust.lexemes] using this
  refine ⟨text, htext.expr, fun table => ?_⟩
  rw [hlexemes]
  exact ⟨hreads.of_strict table (.inr rfl), fun tree' htree' => hreads.unique htree'⟩

/-- The operators `&&` and `||`, which bind alike where they are written and not where they are read, under a `!`, with
    references of references and with a name that is raw in Rust. -/
theorem reads_operators_of_ofModules_logical :
    ∃ source program module_ item e tree text,
      Module.ofSource "m" "mod m; fn f(a: int, b: bool, match: int) -> bool {return b || b && !(**& &a < -match);}" =
        .ok source ∧
      ofModules [source] none = .ok program ∧ module_ ∈ program.modules ∧ item ∈ module_.items ∧ e ∈ item.exprs ∧
      e.operatorTree? = some tree ∧
      tree = .binary ['&', '&'] (.binary ['|', '|'] (.name "b") (.name "b"))
        (.unary .not (.binary ['<']
          (.unary .dereference (.unary .dereference (.unary .reference (.unary .reference (.name "a")))))
          (.unary .negate (.name "match")))) ∧
      (Rust.Setting.mk none "m" []).expr e = .ok text ∧
      Rust.Reads .rust (some 0) (Rust.lexemes text.toList) tree := by
  simp only [exists_and_left]
  refine exists_ok₂ (p := fun _ program => program.modules.any fun module_ => module_.items.any fun item =>
    item.exprs.any (·.operatorTree? = some (.binary ['&', '&'] (.binary ['|', '|'] (.name "b") (.name "b"))
      (.unary .not (.binary ['<']
        (.unary .dereference (.unary .dereference (.unary .reference (.unary .reference (.name "a")))))
        (.unary .negate (.name "match"))))))) (by decide +kernel) fun source program hsource hprogram hall => ?_
  obtain ⟨module_, hmodule, hall⟩ := any_eq_true.1 hall
  obtain ⟨item, hitem, hall⟩ := any_eq_true.1 hall
  obtain ⟨e, he, htree⟩ := any_eq_true.1 hall
  have hspellable : ∀ tree ∈ (none : Option Module).toList ++ [source], tree.Spellable :=
    forall_mem_singleton.2 (Module.settled_of_ofSource hsource).1
  obtain ⟨text, htext, hreads⟩ := reads_operators_of_ofModules hprogram hspellable module_ hmodule item hitem e he _
    (of_decide_eq_true htree) ⟨none, "m", []⟩
  exact ⟨module_, hmodule, item, hitem, e, he, _, of_decide_eq_true htree, rfl, text, htext, (hreads .rust).1⟩

end Program

end Smpl
