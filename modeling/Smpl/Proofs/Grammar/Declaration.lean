import Smpl.Proofs.Grammar.Statement.Completeness

namespace Smpl

namespace Grammar

/-- A struct field or a parameter: a name with its type. -/
inductive Declared : Rule (Member TypeExpr)
  | mk {name : String} {type : TypeExpr} {loc loc₁ : Location} {ts t₁ t₂ rest : Tokens} :
    Takes (.identifier name) loc ts t₁ → Takes (.symbol .colon) loc₁ t₁ t₂ → Written type t₂ rest →
    Declared ⟨loc, name, type⟩ ts rest

inductive ParamName : Rule String
  | mk {name : String} {loc : Location} {ts rest : Tokens} :
    Takes (.identifier name) loc ts rest → ParamName name ts rest

/-- What functions and builtin functions declare alike. -/
inductive Head : Rule (Header TypeExpr)
  | mk {name : String} {typeParams : List String} {params : List (Member TypeExpr)} {result : Option TypeExpr}
      {loc loc₁ loc₂ : Location} {ts t₁ t₂ t₃ t₄ t₅ rest : Tokens} :
    Takes (.identifier name) loc ts t₁ → TypeList ParamName typeParams t₁ t₂ →
    Takes (.symbol .leftParen) loc₁ t₂ t₃ → Listed Declared params t₃ t₄ → Takes (.symbol .rightParen) loc₂ t₄ t₅ →
    Arrow Written result t₅ rest → Head ⟨name, typeParams, params, result⟩ ts rest

/-- A top-level item. -/
inductive Declaration : Rule Item
  | use {name : String} {loc loc₁ loc₂ : Location} {ts t₁ t₂ rest : Tokens} :
    Takes (.keyword .use) loc ts t₁ → Takes (.identifier name) loc₁ t₁ t₂ →
    Takes (.symbol .semicolon) loc₂ t₂ rest → Declaration (.use loc name) ts rest
  | struct {name : String} {fields : List (Member TypeExpr)} {loc loc₁ loc₂ loc₃ : Location}
      {ts t₁ t₂ t₃ t₄ rest : Tokens} :
    Takes (.keyword .struct) loc ts t₁ → Takes (.identifier name) loc₁ t₁ t₂ →
    Takes (.symbol .leftBrace) loc₂ t₂ t₃ → Listed Declared fields t₃ t₄ →
    Takes (.symbol .rightBrace) loc₃ t₄ rest → Declaration (.struct loc name fields) ts rest
  | opaqueType {name : String} {typeParams : List String} {loc loc₁ loc₂ : Location} {ts t₁ t₂ t₃ rest : Tokens} :
    Takes (.keyword .opaqueType) loc ts t₁ → Takes (.identifier name) loc₁ t₁ t₂ →
    TypeList ParamName typeParams t₂ t₃ → Takes (.symbol .semicolon) loc₂ t₃ rest →
    Declaration (.opaqueType loc name typeParams) ts rest
  | function {header : Header TypeExpr} {body : Block Stmt} {loc : Location} {ts t₁ t₂ rest : Tokens} :
    Takes (.keyword .fn) loc ts t₁ → Head header t₁ t₂ → Braced Statement body t₂ rest →
    Declaration (.function loc header body) ts rest
  | builtin {header : Header TypeExpr} {loc loc₁ loc₂ : Location} {ts t₁ t₂ t₃ rest : Tokens} :
    Takes (.keyword .builtin) loc ts t₁ → Takes (.keyword .fn) loc₁ t₁ t₂ → Head header t₂ t₃ →
    Takes (.symbol .semicolon) loc₂ t₃ rest → Declaration (.builtin loc header) ts rest

end Grammar

namespace Parse

open Grammar

instance : Productive Head :=
  ⟨_, [⟨.identifier "", "", default⟩, ⟨.symbol .leftParen, "", default⟩, ⟨.symbol .rightParen, "", default⟩],
    fun _ => .mk .mk .none .mk .none .mk .none⟩

instance : Productive Declaration :=
  ⟨_, [⟨.keyword .use, "", default⟩, ⟨.identifier "", "", default⟩, ⟨.symbol .semicolon, "", default⟩],
    fun _ => .use .mk .mk .mk⟩

theorem member_tracks (expected : Expected) (budget : Nat) (ts : Tokens) :
    Tracks Declared ts (member expected budget ts) := by
  refine .mono (identifier_tracks.bind fun _ _ => symbol_tracks.bind fun _ _ =>
    (typeExpr_tracks budget _).bind fun _ _ => .gives) ?_
  rintro _ _ _ ⟨_, _, hname, _, _, hcolon, _, _, htype, ⟨⟩⟩
  exact .mk hname hcolon htype

theorem typeParam_tracks (ts : Tokens) : Tracks ParamName ts (typeParam ts) := by
  refine .mono (identifier_tracks.bind fun _ _ => .gives) ?_
  rintro _ _ _ ⟨_, _, hname, ⟨⟩⟩
  exact .mk hname

/-- The header of a function is read by its rule. -/
theorem header_tracks (budget : Nat) (ts : Tokens) : Tracks Head ts (header budget ts) := by
  refine .mono (identifier_tracks.bind fun _ _ => (typeList_tracks typeParam_tracks budget _).bind fun _ _ =>
    symbol_tracks.bind fun _ _ => (commaList_tracks _ (member_tracks _ budget) budget _).bind fun _ _ =>
    symbol_tracks.bind fun _ _ => (arrowType_tracks (typeExpr_tracks budget) _).bind fun _ _ => .gives) ?_
  rintro _ _ _ ⟨_, _, hname, _, _, htypes, _, _, hopen, _, _, hparams, _, _, hclose, _, _, hresult, ⟨⟩⟩
  exact .mk hname htypes hopen hparams hclose hresult

theorem fnAfterBuiltin_tracks (ts : Tokens) :
    Tracks (fun _ ts rest => ∃ loc, Takes (.keyword .fn) loc ts rest) ts (fnAfterBuiltin ts) := by
  unfold fnAfterBuiltin
  split
  · exact ⟨[_], rfl, fun _ => ⟨_, .mk⟩⟩
  · exact ⟨[], rfl, (), [⟨.keyword .fn, "", default⟩], fun _ => ⟨_, .mk⟩⟩

/-- An item is read by its rule. -/
theorem item_tracks (budget : Nat) (ts : Tokens) : Tracks Declaration ts (item budget ts) := by
  unfold item
  split
  · refine .mono (.take (identifier_tracks.bind fun _ _ => symbol_tracks.bind fun _ _ => .gives)) ?_
    rintro _ _ _ ⟨_, hword, _, _, hname, _, _, hend, ⟨⟩⟩
    exact .use hword hname hend
  · refine .mono (.take (identifier_tracks.bind fun _ _ => symbol_tracks.bind fun _ _ =>
      (commaList_tracks _ (member_tracks _ budget) budget _).bind fun _ _ => symbol_tracks.bind fun _ _ =>
        .gives)) ?_
    rintro _ _ _ ⟨_, hword, _, _, hname, _, _, hopen, _, _, hfields, _, _, hclose, ⟨⟩⟩
    exact .struct hword hname hopen hfields hclose
  · refine .mono (.take (identifier_tracks.bind fun _ _ =>
      (typeList_tracks typeParam_tracks budget _).bind fun _ _ => symbol_tracks.bind fun _ _ => .gives)) ?_
    rintro _ _ _ ⟨_, hword, _, _, hname, _, _, htypes, _, _, hend, ⟨⟩⟩
    exact .opaqueType hword hname htypes hend
  · refine .mono (.take ((header_tracks budget _).bind fun _ _ => (block_tracks budget _).bind fun _ _ => .gives)) ?_
    rintro _ _ _ ⟨_, hword, _, _, hhead, _, _, hbody, ⟨⟩⟩
    exact .function hword hhead hbody
  · refine .mono (.take ((fnAfterBuiltin_tracks _).bind fun _ _ => (header_tracks budget _).bind fun _ _ =>
      symbol_tracks.bind fun _ _ => .gives)) ?_
    rintro _ _ _ ⟨_, hword, _, _, ⟨_, hfn⟩, _, _, hhead, _, _, hend, ⟨⟩⟩
    exact .builtin hword hfn hhead hend
  · exact .fault

section

variable {bare : Bool} {closer : Symbol} {ts rest : Tokens}

theorem members_comes (hcomma : closer ≠ .comma)
    (hcloser : closer ≠ .colonColon ∧ closer ≠ .leftParen ∧ closer ≠ .arrow) {expected : Expected}
    {members : List (Member TypeExpr)} (h : Listed Declared members ts rest) (hclose : startsWith closer rest = true) :
    (Routine.elements closer (.member expected)).Comes bare members ts rest := by
  refine elements_comes hcomma ?_ ?_ h hclose
  · rintro _ _ _ ⟨hname, _, _⟩
    exact not_startsWith_of_identifier hname
  · rintro _ _ _ ⟨hname, hcolon, htype⟩ hend
    exact .call (identifier_comes hname) (.call (symbol_comes hcolon)
      (.call (type_comes htype (hend.endsType hcloser)) .result))

theorem typeParams_comes {typeParams : List String} (h : TypeList ParamName typeParams ts rest)
    (hstop : opensTypeList rest = false) : (Routine.typeList .typeParam).Comes bare typeParams ts rest := by
  refine typeList_comes ?_ ?_ h hstop
  · rintro _ _ _ ⟨hname⟩
    exact not_startsWith_of_identifier hname
  · rintro _ _ _ ⟨hname⟩ _
    exact .call (identifier_comes hname) .result

/-- The first parenthesis of the parameters opens no type parameters. -/
theorem not_opensTypeList_of_params {params : List (Member TypeExpr)} {loc loc' : Location} {t t' : Tokens}
    (hopen : Takes (.symbol .leftParen) loc ts t) (hparams : Listed Declared params t t')
    (hclose : Takes (.symbol .rightParen) loc' t' rest) : opensTypeList ts = false := by
  cases hopen
  cases hparams with
  | none =>
    cases hclose
    rfl
  | some helements =>
    obtain ⟨_, _, hfirst⟩ := helements.first
    cases hfirst with
    | mk hname =>
      cases hname
      rfl

/-- What is a header by the rules is read as that header. -/
theorem header_comes {head : Header TypeExpr} (h : Head head ts rest) (hend : EndsType rest) :
    Routine.header.Comes bare head ts rest := by
  cases h with
  | mk hname htypes hopen hparams hclose hresult =>
    exact .call (identifier_comes hname)
      (.call (typeParams_comes htypes (not_opensTypeList_of_params hopen hparams hclose))
      (.call (symbol_comes hopen) (.call (members_comes (by decide) (by decide) hparams (startsWith_of_takes hclose))
      (.call (symbol_comes hclose)
        (.call (arrowType_comes hresult hend.result fun _ _ h => type_comes h hend) .result)))))

/-- What is an item by the rules is read as that item. -/
theorem item_comes {declared : Item} (h : Declaration declared ts rest) : Routine.item.Comes true declared ts rest := by
  cases h with
  | use hword hname hend =>
    cases hword
    exact .look (.advance (.call (identifier_comes hname) (.call (symbol_comes hend) .result)))
  | struct hword hname hopen hfields hclose =>
    cases hword
    exact .look (.advance (.call (identifier_comes hname) (.call (symbol_comes hopen)
      (.call (members_comes (by decide) (by decide) hfields (startsWith_of_takes hclose))
      (.call (symbol_comes hclose) .result)))))
  | opaqueType hword hname htypes hend =>
    cases hword
    have hstop := opensTypeList_of_not_startsWith (not_startsWith_of_takes hend (by decide))
    exact .look (.advance (.call (identifier_comes hname) (.call (typeParams_comes htypes hstop)
      (.call (symbol_comes hend) .result))))
  | function hword hhead hbody =>
    obtain ⟨⟨_, _, hopen⟩, hrun⟩ := block_comes hbody
    cases hword
    exact .look (.advance (.call (header_comes hhead (.of_startsWith (startsWith_of_takes hopen) (by decide)))
      (.call hrun .result)))
  | builtin hword hfn hhead hend =>
    cases hword
    cases hfn
    exact .look (.advance (.call (.look (.advance .result))
      (.call (header_comes hhead (.of_startsWith (startsWith_of_takes hend) (by decide)))
      (.call (symbol_comes hend) .result))))

end

end Parse

end Smpl
