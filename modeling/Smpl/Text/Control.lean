namespace Smpl.Text

/-- The characters that may stand between the bracket and the letter of a control sequence. -/
def isControlParameter (c : Char) : Bool :=
  c.isDigit || c = ';' || c = '?'

/-- What follows a control sequence after its escape and bracket, if parameters and a letter end it. -/
def afterControl? : List Char → Option (List Char)
  | [] => none
  | c :: rest =>
    if c.isAlpha then some rest
    else if isControlParameter c then afterControl? rest
    else none

theorem length_afterControl?_lt {chars rest : List Char} (h : afterControl? chars = some rest) :
    rest.length < chars.length := by
  induction chars with
  | nil => simp [afterControl?] at h
  | cons c chars ih =>
    rw [afterControl?] at h
    split at h
    · cases h
      simp
    · split at h
      · have := ih h
        simp only [List.length_cons]
        omega
      · simp at h

/-- Leaves out the control sequences of a terminal, from left to right. What comes together when one
    is left out is not looked at again. -/
def removeControls : List Char → List Char
  | [] => []
  | '\x1b' :: '[' :: rest =>
    match h : afterControl? rest with
    | some after =>
      have := length_afterControl?_lt h
      removeControls after
    | none => '\x1b' :: removeControls ('[' :: rest)
  | c :: rest => c :: removeControls rest
termination_by chars => chars.length
decreasing_by all_goals simp_wf <;> omega

/-- A text as it is printed where nothing can act on control sequences. -/
def plain (text : String) : String :=
  String.ofList (removeControls text.toList)

end Smpl.Text
