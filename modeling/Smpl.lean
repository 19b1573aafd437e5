import Smpl.Main
import Smpl.Proofs.Checker.History
import Smpl.Proofs.CommandLine.Output
import Smpl.Proofs.Compile.Format
import Smpl.Proofs.Decorated.WellFormed
import Smpl.Proofs.Extend.Rearrange
import Smpl.Proofs.Generic.Body
import Smpl.Proofs.Grammar.Lockstep
import Smpl.Proofs.Grammar.Quotation
import Smpl.Proofs.Grammar.Span
import Smpl.Proofs.Grammar.Unbounded
import Smpl.Proofs.Graph.Names
import Smpl.Proofs.Print.Grouping
import Smpl.Proofs.Rust.Hygiene
import Smpl.Proofs.Rust.Ownership
import Smpl.Proofs.Rust.StringLiteral
import Smpl.Proofs.Token.Integer
import Smpl.Proofs.Typing.Init
import Smpl.Proofs.Typing.Paths
import Smpl.Session
import Smpl.Syntax.HandMade
