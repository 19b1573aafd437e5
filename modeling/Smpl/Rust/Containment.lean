import Smpl.Rust.Name
import Smpl.Typed.Declaration

namespace Smpl

mutual

/-- The full names of the structs whose values a value of the type holds directly, each as often as
    it is written. Functions and references hold none. -/
def Ty.holds : Ty → List String
  | .struct name => [name.text]
  | .array element _ => element.holds
  | .opaqueType _ args => Ty.holdsList args
  | .primitive _ | .param _ | .function _ _ | .reference _ => []

def Ty.holdsList : List Ty → List String
  | [] => []
  | type :: types => type.holds ++ Ty.holdsList types

end

/-- The structs that a struct holds directly. -/
def StructInfo.holds (info : StructInfo) : List String :=
  info.fields.flatMap fun (_, type) => type.holds

namespace Rust

/-- Refuses a struct that was reached from itself along a path. -/
def recursiveStruct {α : Type} (structs : Table StructInfo) (path : List String) (name : String) :
    Except Failure α := do
  let info ← structs.require name
  cannotLower (.recursiveStruct (path.dropWhile (· ≠ name) ++ [name])) (some info.loc)
    (some "a struct cannot contain itself by value")

/-- Follows what a struct holds, and adds it to those done if no path leads back. The names on a path
    differ, so a budget above the number of structs lasts. -/
def follow (structs : Table StructInfo) : Nat → List String → List String → String →
    Except Failure (List String)
  | 0, _, done, _ => .ok done
  | budget + 1, path, done, name =>
    if path.contains name then recursiveStruct structs path name
    else if done.contains name then .ok done
    else do
      let info ← structs.require name
      let done ← info.holds.foldlM (follow structs budget (path ++ [name])) done
      return name :: done

/-- Requires that no struct holds itself. -/
def checkContainment (structs : Table StructInfo) : Except Failure Unit := do
  let _ ← structs.keys.foldlM (follow structs (structs.size + 1) []) []

end Rust

end Smpl
