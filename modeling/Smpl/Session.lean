import Smpl.Compile

namespace Smpl

/-- A compiler between two requests: its options, and how many tokens the last request that read
    sources has read. -/
structure Session where
  options : Options
  tokens : Nat := 0

namespace Session

/-- Answers a request that reads sources. -/
def answer {α : Type} (session : Session) (work : Traced α) : Except Failure α × Session :=
  (work.outcome, { session with tokens := work.tokens })

def parse (session : Session) (sources : List Source) : Except Failure (List Module) × Session :=
  session.answer (readSources sources)

def graph (session : Session) (sources : List Source) : Except Failure Graph × Session :=
  session.answer (session.options.graph sources)

def program (session : Session) (sources : List Source) : Except Failure Program × Session :=
  session.answer (session.options.program sources)

/-- Compiles sources. If the backend is unknown nothing is read, and the token count stays. -/
def compile (session : Session) (backends : Backends) (sources : List Source) :
    Except Failure Compiled × Session :=
  match backends.get session.options.backend with
  | .error failure => (.error failure, session)
  | .ok backend => session.answer (session.options.compileWith backends backend sources)

end Session

end Smpl
