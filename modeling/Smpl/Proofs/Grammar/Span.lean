import Smpl.Proofs.Token.Order

namespace Smpl

open List Grammar

/-- Tokens as a text gives them: each ends before the next begins, and is spelled as its kind is. -/
structure Spaced (ts : Tokens) : Prop where
  apart : ts.Pairwise (·.finish.place ≤ ·.location.place)
  spelled : ∀ token ∈ ts, token.kind.Lexeme token.lexeme.toList

/-- A place inside a token. -/
def Token.Covers (token : Token) (loc : Location) : Prop :=
  token.location.place ≤ loc.place ∧ loc.place < token.finish.place

/-- Visits of places in order, each inside one of the tokens that stand before `rest`. -/
def Within (visits : List Visit) (ts rest : Tokens) : Prop :=
  ∃ segment, ts = segment ++ rest ∧ visits.Pairwise (·.loc.place ≤ ·.loc.place) ∧
    ∀ visit ∈ visits, ∃ token ∈ segment, token.Covers visit.loc

section

variable {ts t rest : Tokens} {token : Token} {visits : List Visit} {visit : Visit} {more : Tokens} {node : Node}

theorem Spaced.suffix (h : Spaced ts) (hsuffix : t <:+ ts) : Spaced t :=
  ⟨h.apart.sublist hsuffix.sublist, fun token hmem => h.spelled token (hsuffix.mem hmem)⟩

theorem Spaced.covers_location (h : Spaced ts) (hmem : token ∈ ts) : token.Covers token.location := by
  obtain ⟨c, more, htext, _⟩ := (h.spelled token hmem).lead
  refine ⟨le_refl _, Location.place_lt_right _ ?_⟩
  rw [← String.length_toList, htext, length_cons]
  omega

/-- The second half of a double ampersand. -/
theorem Spaced.covers_right {lexeme : String} {loc : Location} (h : Spaced ts)
    (hmem : ⟨.symbol .and, lexeme, loc⟩ ∈ ts) : Token.Covers ⟨.symbol .and, lexeme, loc⟩ (loc.right 1) := by
  have hspelled := h.spelled _ hmem
  have hlength : lexeme.length = 2 := by
    rw [← String.length_toList]
    generalize lexeme.toList = text at hspelled
    cases hspelled
    rfl
  refine ⟨(Location.place_lt_right loc Int.one_pos).le, ?_⟩
  rw [Token.finish, hlength]
  exact Location.place_lt_iff.2 (.inr ⟨rfl, Int.add_lt_add_left (by decide) _⟩)

/-- Places in tokens that follow each other are in order. -/
theorem Within.append {visits' : List Visit} (hspaced : Spaced ts) (h : Within visits ts t)
    (h' : Within visits' t rest) : Within (visits ++ visits') ts rest := by
  obtain ⟨segment, rfl, hsorted, hcovered⟩ := h
  obtain ⟨segment', rfl, hsorted', hcovered'⟩ := h'
  refine ⟨segment ++ segment', (append_assoc ..).symm, ?_, ?_⟩
  · refine pairwise_append.2 ⟨hsorted, hsorted', ?_⟩
    intro visit hvisit visit' hvisit'
    obtain ⟨token, htoken, _, hend⟩ := hcovered visit hvisit
    obtain ⟨token', htoken', hstart, _⟩ := hcovered' visit' hvisit'
    have hapart := (pairwise_append.1 hspaced.apart).2.2 token htoken token' (mem_append_left _ htoken')
    exact hend.le.trans (hapart.trans hstart)
  · intro visit hvisit
    obtain hvisit | hvisit := mem_append.1 hvisit
    · obtain ⟨token, htoken, hcovers⟩ := hcovered visit hvisit
      exact ⟨token, mem_append_left _ htoken, hcovers⟩
    · obtain ⟨token, htoken, hcovers⟩ := hcovered' visit hvisit
      exact ⟨token, mem_append_right _ htoken, hcovers⟩

theorem Within.skip (h : Within visits ts rest) : Within visits (token :: ts) rest := by
  obtain ⟨segment, rfl, hsorted, hcovered⟩ := h
  refine ⟨token :: segment, rfl, hsorted, ?_⟩
  intro visit hvisit
  obtain ⟨token, htoken, hcovers⟩ := hcovered visit hvisit
  exact ⟨token, mem_cons_of_mem _ htoken, hcovers⟩

/-- Nodes in a row are met in the order of their tokens. -/
theorem Row.within {nodes : List Node} {solid : Bool} (h : Row Node.Part solid nodes ts rest)
    (hnodes : ∀ node ∈ nodes, ∀ {ts rest}, node.Part ts rest → Spaced ts → Within node.fullWalk ts rest)
    (hspaced : Spaced ts) : Within (nodes.flatMap Node.fullWalk) ts rest := by
  induction h with
  | nil => exact ⟨[], rfl, .nil, forall_mem_nil _⟩
  | skip _ ih => exact (ih hnodes (hspaced.suffix (suffix_cons _ _))).skip
  | cons hnode _ ih =>
    obtain ⟨hfirst, hothers⟩ := forall_mem_cons.1 hnodes
    rw [flatMap_cons]
    exact (hfirst hnode hspaced).append hspaced (ih hothers (hspaced.suffix hnode.suffix))
  | loose _ ih => exact ih hnodes hspaced

/-- The start of the first token comes before all places in the tokens. -/
theorem Within.start (hspaced : Spaced (token :: more)) (hstart : visit.loc = token.location)
    (hshort : rest.length < (token :: more).length) (h : Within visits (token :: more) rest) :
    Within (visit :: visits) (token :: more) rest := by
  obtain ⟨segment, hsegment, hsorted, hcovered⟩ := h
  have hfirst := hspaced.covers_location mem_cons_self
  cases segment with
  | nil =>
    rw [hsegment, nil_append] at hshort
    omega
  | cons first segment =>
    cases hsegment
    refine ⟨token :: segment, rfl, pairwise_cons.2 ⟨?_, hsorted⟩, forall_mem_cons.2 ⟨?_, hcovered⟩⟩
    · intro other hother
      obtain ⟨token', htoken', hle, _⟩ := hcovered other hother
      rw [hstart]
      cases htoken' with
      | head => exact hle
      | tail _ htoken' =>
        have hapart := (pairwise_cons.1 hspaced.apart).1 token' (mem_append_left _ htoken')
        exact hfirst.2.le.trans (hapart.trans hle)
    · rw [hstart]
      exact ⟨token, mem_cons_self, hfirst⟩

/-- A place in the first token comes before all places in the others. -/
theorem Within.inside (hspaced : Spaced (token :: more)) (hvisit : token.Covers visit.loc)
    (h : Within visits more rest) : Within (visit :: visits) (token :: more) rest := by
  have hone : Within [visit] (token :: more) more :=
    ⟨[token], rfl, pairwise_singleton _ _, forall_mem_singleton.2 ⟨token, mem_cons_self, hvisit⟩⟩
  exact hone.append hspaced h

/-- A walk through the tree below a node meets places in order, all inside the tokens of the node. -/
theorem Node.Part.within (h : node.Part ts rest) (hspaced : Spaced ts) : Within node.fullWalk ts rest := by
  induction node using Node.induct generalizing ts rest with
  | h node ih =>
    rw [Node.fullWalk_eq]
    cases h with
    | reads h =>
      have hbelow := h.row.within (fun child hchild _ _ hpart => ih child hchild hpart) hspaced
      have hstart := h.start
      have hshort := (Node.Part.reads h).length_lt
      cases ts with
      | nil => cases hstart
      | cons token more => exact hbelow.start hspaced (Option.some.inj hstart).symm hshort
    | innerReference hop he =>
      cases hop
      have hbelow := (Node.row_of_expression he).within (fun child hchild _ _ hpart => ih child hchild hpart)
        (hspaced.suffix (suffix_cons _ _))
      exact hbelow.inside hspaced (hspaced.covers_right mem_cons_self)

/-- Where a node of a module starts in the tokens that were read: at the first of its own, or at the end
    of a file that has none. One mark stands for two references, the inner one a column to the right. -/
inductive Node.Starts (stream : TokenStream) : Node → Prop
  | module {file : String} {module_ : Module} :
    SourceFile file stream module_ → stream.locations.head? = some module_.loc → Starts stream (.ofModule module_)
  | token {node : Node} {token : Token} {more rest : Tokens} :
    token :: more <:+ stream.tokens → node.Reads (token :: more) rest → node.loc = token.location →
    Starts stream node
  | innerReference {bare : Bool} {e : Expr} {lexeme : String} {loc : Location} {more rest : Tokens} :
    ⟨.symbol .and, lexeme, loc⟩ :: more <:+ stream.tokens → Expression bare 6 e more rest →
    Starts stream (.ofExpr (.unary (loc.right 1) .reference e))

/-- A node that is read starts at a token of the text. -/
theorem Node.Part.starts {stream : TokenStream} (h : node.Part ts rest) (hsuffix : ts <:+ stream.tokens) :
    node.Starts stream := by
  cases h with
  | reads h =>
    have hstart := h.start
    cases ts with
    | nil => cases hstart
    | cons token more => exact .token hsuffix h (Option.some.inj hstart).symm
  | innerReference hop he =>
    cases hop
    exact .innerReference hsuffix he

/-- Every node below a node is read from tokens of that node. -/
theorem Node.Part.at? {found : Node} (h : node.Part ts rest) {address : List Nat}
    (hfound : node.at? address = some found) : ∃ t t', found.Part t t' ∧ t <:+ ts := by
  induction address generalizing node ts rest with
  | nil =>
    cases hfound
    exact ⟨ts, rest, h, suffix_rfl⟩
  | cons i address ih =>
    obtain ⟨child, hchild, hfound⟩ := Option.bind_eq_some_iff.1 hfound
    obtain ⟨t, t', hpart, hsuffix⟩ := h.row.exists_part (fun _ _ _ h => h.suffix) (mem_of_getElem? hchild)
    obtain ⟨u, u', hpart, hsuffix'⟩ := ih hpart hfound
    exact ⟨u, u', hpart, hsuffix'.trans hsuffix⟩

end

section

variable {file : String} {stream : TokenStream} {module_ : Module} (h : SourceFile file stream module_)
include h

theorem Grammar.SourceFile.head?_locations : stream.locations.head? = some module_.loc := by
  cases h
  rw [TokenStream.locations]
  cases stream.tokens <;> rfl

/-- A walk through a module meets places in the order of the text. -/
theorem Grammar.SourceFile.sorted_walk (hspaced : Spaced stream.tokens) :
    (Node.ofModule module_).fullWalk.Pairwise (·.loc.place ≤ ·.loc.place) := by
  have hbelow := h.row.within (fun _ _ _ _ hpart => hpart.within) hspaced
  have hhead := h.head?_locations
  rw [Node.fullWalk_eq]
  cases htokens : stream.tokens with
  | nil =>
    obtain ⟨segment, hsegment, hsorted, hcovered⟩ := hbelow
    rw [htokens] at hsegment
    rw [(append_eq_nil_iff.1 hsegment.symm).1] at hcovered
    refine pairwise_cons.2 ⟨fun visit hvisit => ?_, hsorted⟩
    obtain ⟨token, hmem, _⟩ := hcovered visit hvisit
    cases hmem
  | cons token more =>
    rw [TokenStream.locations, htokens] at hhead
    rw [htokens] at hbelow hspaced
    have hall : Within ((Node.ofModule module_).seen :: _) (token :: more) [] :=
      hbelow.start hspaced (Option.some.inj hhead).symm (Nat.succ_pos _)
    obtain ⟨_, _, hsorted, _⟩ := hall
    exact hsorted

end

/-- A walk through a module that was read meets every node once, each before those below it and in the
    order of the text, and each stands at the first of its tokens. -/
theorem Module.walk_ofSource {file source : String} {module_ : Module} (h : Module.ofSource file source = .ok module_) :
    ∃ stream, tokenize file source.toList = .ok stream ∧
      (∃ addresses, Node.Enumerates (Node.ofModule module_).at? addresses (module_.walk fun _ => false)) ∧
      (module_.walk fun _ => false).Pairwise (·.loc.place ≤ ·.loc.place) ∧
      ∀ address node, (Node.ofModule module_).at? address = some node → node.Starts stream := by
  obtain ⟨stream, hstream, hparse⟩ := bind_eq_ok_iff.1 h
  have hfile := Module.parse_eq_ok_iff.1 hparse
  obtain ⟨horder, hspelled⟩ := inOrder_of_tokenize hstream
  have hspaced : Spaced stream.tokens := ⟨horder.apart, hspelled⟩
  refine ⟨stream, hstream, Node.exists_enumerates (.ofModule module_), ?_, ?_⟩
  · exact hfile.sorted_walk hspaced
  · intro address node hnode
    cases address with
    | nil =>
      cases hnode
      exact .module hfile hfile.head?_locations
    | cons i address =>
      obtain ⟨child, hchild, hfound⟩ := Option.bind_eq_some_iff.1 hnode
      obtain ⟨t, t', hpart, hsuffix⟩ := hfile.row.exists_part (fun _ _ _ h => h.suffix) (mem_of_getElem? hchild)
      obtain ⟨u, u', hpart, hsuffix'⟩ := hpart.at? hfound
      exact hpart.starts (hsuffix'.trans hsuffix)

/-- Two references in a row, which are one token: the inner one stands inside of it. -/
theorem Module.walk_ofSource_references :
    ∃ module_ stream,
      Module.ofSource "m" "fn f() { g(&&x + 1); }" = .ok module_ ∧
      (module_.walk fun _ => false).map (·.loc.column) = [1, 1, 8, 10, 10, 12, 12, 13, 14, 18] ∧
      tokenize "m" "fn f() { g(&&x + 1); }".toList = .ok stream ∧
      (∃ addresses, Node.Enumerates (Node.ofModule module_).at? addresses (module_.walk fun _ => false)) ∧
      (module_.walk fun _ => false).Pairwise (·.loc.place ≤ ·.loc.place) ∧
      ∀ address node, (Node.ofModule module_).at? address = some node → node.Starts stream := by
  simp only [exists_and_left]
  refine exists_ok (p := fun module_ => (module_.walk fun _ => false).map (·.loc.column) =
    [1, 1, 8, 10, 10, 12, 12, 13, 14, 18]) (by decide +kernel) fun module_ hmodule hcolumns => ?_
  exact ⟨of_decide_eq_true hcolumns, Module.walk_ofSource hmodule⟩

end Smpl
