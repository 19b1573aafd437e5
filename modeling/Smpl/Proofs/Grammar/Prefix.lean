import Smpl.Proofs.Grammar.SourceFile
import Smpl.Proofs.Token.Order

namespace Smpl

theorem Parse.eq_error_of_bind_ok {ε α β : Type} {x : Except ε α} {f : α → β} {fault : ε}
    (h : (x >>= fun a => .ok (f a)) = .error fault) : x = .error fault := by
  cases x with
  | error fault' =>
    cases h
    rfl
  | ok a => cases h

open Grammar

/-- The tokens before a fault are the start of a module by the rules. -/
theorem Module.viable_of_ofTokens {file : String} {stream : TokenStream} {fault : ParseFault}
    (h : Module.ofTokens file stream = .error fault) :
    ∃ read, stream.tokens = read ++ fault.rest ∧ Viable NameAndItems read := by
  rw [Module.ofTokens_eq] at h
  have htracks := Parse.sourceFile_tracks stream.tokens
  rwa [Parse.eq_error_of_bind_ok h] at htracks

/-- What starts a module by the rules can be completed to tokens that are read. -/
theorem Module.exists_parse_of_viable {read : Tokens} (h : Viable NameAndItems read) :
    ∃ more, ∀ file finish lines, ∃ module_, Module.parse file ⟨read ++ more, finish⟩ lines = .ok module_ := by
  obtain ⟨_, more, hmore⟩ := h
  obtain ⟨name, t, hname, items, _, hitems, ⟨⟩⟩ := hmore []
  rw [List.append_nil] at hname
  exact ⟨more, fun _ _ _ => ⟨_, Module.parse_eq_ok_iff.2 (.mk hname hitems)⟩⟩

theorem ParseFault.category_diagnostic (fault : ParseFault) (finish : Location) (lines : List String) :
    (fault.diagnostic finish lines).cause.category = .parsing := by
  obtain ⟨kind, rest⟩ := fault
  cases kind <;> rfl

/-- A text that can be read as tokens but not as a module is refused at one of them, or at its end, and
    the tokens before that one are the start of a module. -/
theorem Module.completable_of_ofSource {file source : String} {stream : TokenStream} {failure : Failure}
    (hstream : tokenize file source.toList = .ok stream) (h : Module.ofSource file source = .error failure) :
    ∃ diagnostic index, failure = .diagnostic diagnostic ∧ diagnostic.cause.category = .parsing ∧
      stream.PointsAt diagnostic index ∧
      ∃ more, ∀ file finish lines, ∃ module_,
        Module.parse file ⟨stream.tokens.take index ++ more, finish⟩ lines = .ok module_ := by
  rw [Module.ofSource, hstream, ok_bind, Module.parse] at h
  cases hread : Module.ofTokens file stream with
  | ok module_ =>
    rw [hread] at h
    cases h
  | error fault =>
    rw [hread] at h
    cases h
    obtain ⟨read, htokens, hviable⟩ := Module.viable_of_ofTokens hread
    refine ⟨_, read.length, rfl, fault.category_diagnostic _ _, TokenStream.pointsAt_of_tokenize hstream htokens _, ?_⟩
    rw [htokens, List.take_left]
    exact Module.exists_parse_of_viable hviable

/-- A binding whose value is missing. -/
theorem Module.completable_of_ofSource_let :
    ∃ stream failure, tokenize "m" "fn f() { let x: Int = ; }".toList = .ok stream ∧
      Module.ofSource "m" "fn f() { let x: Int = ; }" = .error failure ∧
      ∃ diagnostic index, failure = .diagnostic diagnostic ∧ diagnostic.cause.category = .parsing ∧
        stream.PointsAt diagnostic index ∧
        ∃ more, ∀ file finish lines, ∃ module_,
          Module.parse file ⟨stream.tokens.take index ++ more, finish⟩ lines = .ok module_ := by
  have htokens : (tokenize "m" "fn f() { let x: Int = ; }".toList).toOption.any (·.tokens.length = 12) = true := by
    decide +kernel
  have hread : (Module.ofSource "m" "fn f() { let x: Int = ; }").toOption.isNone = true := by
    decide +kernel
  obtain ⟨stream, hstream, _⟩ := exists_eq_ok_of_any htokens
  cases hfailure : Module.ofSource "m" "fn f() { let x: Int = ; }" with
  | ok module_ =>
    rw [hfailure] at hread
    cases hread
  | error failure => exact ⟨stream, failure, hstream, rfl, Module.completable_of_ofSource hstream hfailure⟩

end Smpl
