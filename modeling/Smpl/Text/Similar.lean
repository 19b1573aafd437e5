namespace Smpl.Text

/-- A common block of two texts: where it starts in each, and its length. -/
structure CommonBlock where
  left : Nat
  right : Nat
  size : Nat
deriving DecidableEq, Repr, Inhabited

/-- The characters of a long word that are too frequent to start a common block. -/
def frequentChars (word : List Char) : List Char :=
  if word.length < 200 then []
  else word.eraseDups.filter fun c => word.length / 100 + 1 < word.count c

/-- Lengths of the common blocks that end at `c` in one text and at each place of the other, from
    those that ended one character earlier. -/
def extendRow (frequent : List Char) (c : Char) (word : List Char) (previous : List Nat) : List Nat :=
  List.zipWith (fun w size => if w = c && !frequent.contains w then size + 1 else 0) word (0 :: previous)

/-- The first longest entry of a row that beats `best`, as a block. -/
def betterBlock (best : CommonBlock) (place : Nat) (row : List Nat) : CommonBlock :=
  row.zipIdx.foldl
    (fun best (size, other) =>
      if best.size < size then ⟨place + 1 - size, other + 1 - size, size⟩ else best)
    best

/-- The longest common block without frequent characters, the earliest in the left text and then in
    the right one. -/
def longestBlock (frequent left right : List Char) : CommonBlock :=
  (left.zipIdx.foldl
    (fun (best, row) (c, place) =>
      let row := extendRow frequent c right row
      (betterBlock best place row, row))
    ((⟨0, 0, 0⟩ : CommonBlock), right.map fun _ => 0)).1

/-- How far two texts agree from their starts. -/
def commonLength : List Char → List Char → Nat
  | a :: as, b :: bs => if a = b then commonLength as bs + 1 else 0
  | _, _ => 0

/-- Grows a block over equal neighbours on both sides, frequent characters included. -/
def growBlock (left right : List Char) (block : CommonBlock) : CommonBlock :=
  let before := commonLength (left.take block.left).reverse (right.take block.right).reverse
  let after := commonLength (left.drop (block.left + block.size)) (right.drop (block.right + block.size))
  ⟨block.left - before, block.right - before, before + block.size + after⟩

/-- Total length of the common blocks: the longest one, then those on each side of it. Each level
    uses up a character of the left text, so its length bounds the levels. -/
def commonTotal (frequent : List Char) : Nat → List Char → List Char → Nat
  | 0, _, _ => 0
  | levels + 1, left, right =>
    let block := growBlock left right (longestBlock frequent left right)
    if block.size = 0 then 0
    else
      commonTotal frequent levels (left.take block.left) (right.take block.right) + block.size +
        commonTotal frequent levels (left.drop (block.left + block.size))
          (right.drop (block.right + block.size))

/-- The likeness of two texts as a fraction: the share of their characters in common blocks. -/
def likeness (candidate word : String) : Nat × Nat :=
  let left := candidate.toList
  let right := word.toList
  let total := left.length + right.length
  if total = 0 then (1, 1) else (2 * commonTotal (frequentChars right) left.length left right, total)

/-- The three candidates most like a word, at least three fifths alike, the best first. Equally good
    ones stand in descending order, and a repeated candidate may be listed repeatedly. -/
def similar (word : String) (candidates : List String) : List String :=
  let scored := candidates.map fun name => (likeness name word, name)
  let close := scored.filter fun ((common, total), _) => 3 * total ≤ 5 * common
  let ranked := close.mergeSort fun ((c₁, t₁), n₁) ((c₂, t₂), n₂) =>
    c₂ * t₁ < c₁ * t₂ || (c₁ * t₂ == c₂ * t₁ && (n₂ < n₁ || n₂ == n₁))
  (ranked.take 3).map (·.2)

end Smpl.Text
