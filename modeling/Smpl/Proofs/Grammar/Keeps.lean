import Smpl.Proofs.Grammar.SourceFile

namespace Smpl.Grammar

open List

variable {α : Type} {q : Token → Prop}

/-- Whatever a rule reads off tokens that all have a property `q` has the property `p`, and the tokens
    left over have `q` too. -/
def Keeps (q : Token → Prop) (rule : Rule α) (p : α → Prop) : Prop :=
  ∀ ⦃a ts rest⦄, rule a ts rest → (∀ token ∈ ts, q token) → p a ∧ ∀ token ∈ rest, q token

theorem Takes.keeps {kind : TokenKind} : Keeps q (Takes kind) fun loc => ∃ lexeme, q ⟨kind, lexeme, loc⟩ := by
  intro loc ts rest h hts
  cases h with
  | @mk lexeme =>
    obtain ⟨hfirst, hrest⟩ := forall_mem_cons.1 hts
    exact ⟨⟨lexeme, hfirst⟩, hrest⟩

theorem Names.keeps {separator : Symbol} :
    Keeps q (Names separator) fun names => ∀ name ∈ names, ∃ lexeme loc, q ⟨.identifier name, lexeme, loc⟩ := by
  intro names ts rest h hts
  induction h with
  | nil => exact ⟨by simp, hts⟩
  | cons hseparator hname _ ih =>
    obtain ⟨⟨lexeme, hfirst⟩, hts⟩ := hname.keeps (hseparator.keeps hts).2
    obtain ⟨hothers, hrest⟩ := ih hts
    exact ⟨forall_mem_cons.2 ⟨⟨lexeme, _, hfirst⟩, hothers⟩, hrest⟩

section

variable {element : Rule α} {p : α → Prop} (helement : Keeps q element p)
include helement

/-- What holds of each element holds of all elements between commas. -/
theorem Elements.keeps : Keeps q (Elements element) fun as => ∀ a ∈ as, p a := by
  intro as ts rest h hts
  induction h with
  | last ha =>
    obtain ⟨ha, hrest⟩ := helement ha hts
    exact ⟨forall_mem_singleton.2 ha, hrest⟩
  | lastComma ha hcomma =>
    obtain ⟨ha, hts⟩ := helement ha hts
    exact ⟨forall_mem_singleton.2 ha, (hcomma.keeps hts).2⟩
  | more ha hcomma _ ih =>
    obtain ⟨ha, hts⟩ := helement ha hts
    obtain ⟨has, hrest⟩ := ih (hcomma.keeps hts).2
    exact ⟨forall_mem_cons.2 ⟨ha, has⟩, hrest⟩

theorem Listed.keeps : Keeps q (Listed element) fun as => ∀ a ∈ as, p a := by
  intro as ts rest h hts
  cases h with
  | none => exact ⟨by simp, hts⟩
  | some helements => exact helements.keeps helement hts

theorem TypeList.keeps : Keeps q (TypeList element) fun as => ∀ a ∈ as, p a := by
  intro as ts rest h hts
  cases h with
  | none => exact ⟨by simp, hts⟩
  | some hopen hword helements hclose =>
    obtain ⟨_, hts⟩ := hopen.keeps hts
    obtain ⟨_, hts⟩ := hword.keeps hts
    obtain ⟨has, hts⟩ := helements.keeps helement hts
    exact ⟨has, (hclose.keeps hts).2⟩

theorem Arrow.keeps : Keeps q (Arrow element) fun a => ∀ b ∈ a, p b := by
  intro a ts rest h hts
  cases h with
  | none => exact ⟨by simp, hts⟩
  | some harrow ha =>
    obtain ⟨ha, hrest⟩ := helement ha (harrow.keeps hts).2
    exact ⟨by simpa using ha, hrest⟩

theorem Many.keeps : Keeps q (Many element) fun as => ∀ a ∈ as, p a := by
  intro as ts rest h hts
  induction h with
  | nil => exact ⟨by simp, hts⟩
  | cons ha _ ih =>
    obtain ⟨ha, hts⟩ := helement ha hts
    obtain ⟨has, hrest⟩ := ih hts
    exact ⟨forall_mem_cons.2 ⟨ha, has⟩, hrest⟩

end

end Smpl.Grammar
