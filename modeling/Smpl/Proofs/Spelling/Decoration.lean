import Smpl.Proofs.Decorated.Complete

namespace Smpl

open List

/-- The place and kind of a node with what checking added to it. -/
def TypedNode.mark (node : TypedNode) : Visit × Decoration :=
  (node.visit, node.decoration)

/-- What checking added to the items of a module and to all nodes in them. Uses get nothing. -/
def TypedModule.decorations (module_ : TypedModule) : List (Visit × Decoration) :=
  (module_.items.filter fun item => !item.isUse).flatMap fun item => item.nodes.map TypedNode.mark

/-- A node of the tree in which the paths of items are spelled in full. -/
def TypedNode.spelled (full : Bool) : TypedNode → TypedNode
  | .type written => .type (written.spelled full)
  | .expr checked => .expr (checked.spelled full)
  | .stmt checked => .stmt (checked.spelled full)
  | .item checked => .item (checked.spelled full)
  | node => node

theorem flatMap_map_eq_of_mem {α β γ δ : Type} {as : List α} {f : α → β} {nodes : α → List γ} {nodes' : β → List δ}
    {g : γ → δ} (h : ∀ a ∈ as, nodes' (f a) = (nodes a).map g) :
    (as.map f).flatMap nodes' = (as.flatMap nodes).map g := by
  rw [flatMap_map, map_flatMap]
  exact flatMap_congr h

section

variable (full : Bool)

/-- What checking added to a node does not depend on how the paths below it are spelled. -/
theorem TypedNode.mark_spelled (node : TypedNode) : (node.spelled full).mark = node.mark := by
  cases node with
  | type written => cases written <;> rfl
  | expr e =>
    cases e with
    | call | paren =>
      simp [spelled, TypedExpr.spelled, mark, visit, decoration, map_type_spelledTypes, TypedExpr.erase, Expr.kind,
        TypedExpr.loc, TypedExpr.type]
    | _ => rfl
  | stmt stmt =>
    cases stmt with
    | block body =>
      cases body
      rfl
    | _ => rfl
  | item item => cases item <;> rfl
  | unresolved | plain => rfl

theorem resultNodes_spelled_of_mem {result : Option TypedTypeExpr}
    (h : ∀ type ∈ result, (type.spelled full).nodes = type.nodes.map (TypedNode.spelled full)) :
    resultNodes (spelledResult full result) = (resultNodes result).map (TypedNode.spelled full) := by
  cases result with
  | none => rfl
  | some type => exact h type rfl

/-- The nodes of a type in which the paths are spelled in full are its nodes with such paths. -/
theorem TypedTypeExpr.nodes_spelled (type : TypedTypeExpr) :
    (type.spelled full).nodes = type.nodes.map (TypedNode.spelled full) := by
  induction type using TypedTypeExpr.induct with
  | named loc path args type hargs =>
    simp [spelled, nodes, TypedNode.spelled, typesNodes_eq_flatMap, spelledTypes_eq_map, flatMap_map_eq_of_mem hargs]
  | array loc element length type helement => simp [spelled, nodes, TypedNode.spelled, helement]
  | function loc params result type hparams hresult =>
    simp [spelled, nodes, TypedNode.spelled, typesNodes_eq_flatMap, spelledTypes_eq_map, flatMap_map_eq_of_mem hparams,
      resultNodes_spelled_of_mem full hresult]

theorem typesNodes_spelled (types : List TypedTypeExpr) :
    typesNodes (spelledTypes full types) = (typesNodes types).map (TypedNode.spelled full) := by
  rw [typesNodes_eq_flatMap, typesNodes_eq_flatMap, spelledTypes_eq_map]
  exact flatMap_map_eq_of_mem fun type _ => type.nodes_spelled full

theorem TypedExpr.nodes_spelled (e : TypedExpr) : (e.spelled full).nodes = e.nodes.map (TypedNode.spelled full) := by
  induction e using TypedExpr.induct with
  | literal | binding | field => rfl
  | call loc callee typeArgs args target type hargs =>
    simp [spelled, nodes, TypedNode.spelled, typesNodes_spelled, exprsNodes_eq_flatMap, spelledExprs_eq_map,
      flatMap_map_eq_of_mem hargs]
  | init loc path fields struct hfields =>
    have hinits := @flatMap_map_eq_of_mem _ _ _ _ fields (FieldInit.spelled full)
      (fun init => .plain .fieldInit init.loc :: init.value.nodes)
      (fun init => .plain .fieldInit init.loc :: init.value.nodes) (TypedNode.spelled full)
      fun init hinit => congrArg _ (hfields init hinit)
    simp [spelled, nodes, TypedNode.spelled, initsNodes_eq_flatMap, spelledInits_eq_map, hinits]
  | unary loc op operand type hoperand => simp [spelled, nodes, TypedNode.spelled, hoperand]
  | binary loc op left right type hleft hright => simp [spelled, nodes, TypedNode.spelled, hleft, hright]
  | paren loc inner hinner => simp [spelled, nodes, TypedNode.spelled, hinner]

theorem blockNodes_spelled_of_mem {body : Block TypedStmt}
    (h : ∀ stmt ∈ body.statements, (stmt.spelled full).nodes = stmt.nodes.map (TypedNode.spelled full)) :
    blockNodes (spelledBlock full body) = (blockNodes body).map (TypedNode.spelled full) := by
  have hstmts : spelledStmts full body.statements = body.statements.map (TypedStmt.spelled full) :=
    eq_map_of_cons rfl fun _ _ => rfl
  rw [blockNodes_eq, blockNodes_eq, spelledBlock, hstmts, flatMap_map_eq_of_mem h]
  rfl

theorem TypedStmt.nodes_spelled (stmt : TypedStmt) :
    (stmt.spelled full).nodes = stmt.nodes.map (TypedNode.spelled full) := by
  induction stmt using TypedStmt.induct with
  | block body hbody => simp [spelled, nodes, blockNodes_spelled_of_mem full hbody]
  | letBinding | assign | expression | breakLoop | continueLoop =>
    simp [spelled, nodes, TypedNode.spelled, TypedTypeExpr.nodes_spelled, TypedExpr.nodes_spelled]
  | ifChain loc branches otherwise hbranches hotherwise =>
    have hchain := @flatMap_map_eq_of_mem _ _ _ _ branches (Branch.spelled full)
      (fun branch => .plain .branch branch.loc :: (branch.condition.nodes ++ blockNodes branch.body))
      (fun branch => .plain .branch branch.loc :: (branch.condition.nodes ++ blockNodes branch.body))
      (TypedNode.spelled full) fun branch hbranch => by
        simp [Branch.spelled, TypedNode.spelled, TypedExpr.nodes_spelled,
          blockNodes_spelled_of_mem full (hbranches branch hbranch)]
    have helse : elseNodes (spelledElse full otherwise) = (elseNodes otherwise).map (TypedNode.spelled full) := by
      cases otherwise with
      | none => rfl
      | some body => exact blockNodes_spelled_of_mem full (hotherwise body rfl)
    simp [spelled, nodes, TypedNode.spelled, branchesNodes_eq_flatMap, spelledBranches_eq_map, hchain, helse]
  | whileLoop loc condition body hbody =>
    simp [spelled, nodes, TypedNode.spelled, TypedExpr.nodes_spelled, blockNodes_spelled_of_mem full hbody]
  | returnValue loc value => cases value <;> simp [spelled, nodes, TypedNode.spelled, TypedExpr.nodes_spelled]

/-- The nodes of a respelled item are its nodes, respelled. -/
theorem TypedItem.nodes_spelled (item : TypedItem) :
    (item.spelled full).nodes = item.nodes.map (TypedNode.spelled full) := by
  have hmembers (kind : NodeKind) (members : List (Member TypedTypeExpr)) :
      membersNodes kind (members.map (Member.spelled full)) = (membersNodes kind members).map
        (TypedNode.spelled full) :=
    flatMap_map_eq_of_mem fun member _ => congrArg _ (member.type.nodes_spelled full)
  have hheader (header : Header TypedTypeExpr) :
      headerNodes (header.spelled full) = (headerNodes header).map (TypedNode.spelled full) := by
    simp [headerNodes, Header.spelled, hmembers,
      resultNodes_spelled_of_mem full fun type _ => type.nodes_spelled full]
  cases item with
  | use | opaqueType | other => rfl
  | struct => simp [spelled, nodes, TypedNode.spelled, hmembers]
  | eclipsed => simp [spelled, nodes, TypedNode.spelled, unresolvedNodes, map_flatMap, Function.comp_def]
  | function =>
    simp [spelled, nodes, TypedNode.spelled, hheader, blockNodes_spelled_of_mem full fun stmt _ =>
      stmt.nodes_spelled full]
  | builtin => simp [spelled, nodes, TypedNode.spelled, hheader]

/-- The decorations of a module do not depend on how the paths in it are spelled. -/
theorem TypedModule.decorations_spelled (module_ : TypedModule) :
    (module_.spelled full).decorations = module_.decorations := by
  have hkeep : ∀ item : TypedItem, (!item.isUse && (!full || !item.isUse)) = !item.isUse := by
    intro item
    cases item.isUse <;> simp
  simp [TypedModule.decorations, TypedModule.spelled, filter_map, flatMap_map, Function.comp_def,
    TypedItem.nodes_spelled, TypedNode.mark_spelled, hkeep]

end

end Smpl
