namespace Smpl.Sorting

variable {α ε : Type} (before : α → α → Except ε Bool)

/-- Cuts a list where a value comes before the one in front of it. -/
def rising : α → List α → Except ε (List α × List α)
  | _, [] => return ([], [])
  | last, next :: rest => do
    if ← before next last then return ([], next :: rest)
    let (run, others) ← rising next rest
    return (next :: run, others)

/-- Cuts a list where a value does not come before the one in front of it. -/
def falling : α → List α → Except ε (List α × List α)
  | _, [] => return ([], [])
  | last, next :: rest => do
    if ← before next last then
      let (run, others) ← falling next rest
      return (next :: run, others)
    return ([], next :: rest)

/-- The part at the start of a list that is in order already, forwards or backwards, and the rest. -/
def firstRun : List α → Except ε (List α × List α)
  | first :: second :: rest => do
    if ← before second first then
      let (run, others) ← falling before second rest
      return ((first :: second :: run).reverse, others)
    let (run, others) ← rising before second rest
    return (first :: second :: run, others)
  | values => return (values, [])

/-- The place of a value in an ordered list, after all that it does not come before. It lies between
    two bounds, and each comparison halves their distance. -/
def position (value : α) (values : List α) (low high : Nat) : Except ε Nat :=
  if low < high then
    let middle := (low + high) / 2
    match values.drop middle with
    | [] => return low
    | other :: _ => do
      if ← before value other then position value values low middle
      else position value values (middle + 1) high
  else return low
termination_by high - low

def insert (values : List α) (value : α) : Except ε (List α) := do
  let place ← position before value values 0 values.length
  return values.take place ++ value :: values.drop place

/-- Sorts a list: what is in order at its start stays, and the rest goes in one by one. The first
    comparison that fails ends it. -/
def sort (values : List α) : Except ε (List α) := do
  let (run, others) ← firstRun before values
  others.foldlM (insert before) run

end Smpl.Sorting
