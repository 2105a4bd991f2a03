import Chronicle.Error
/-!
# Calls that can fail

Everything a loop or a handler of requests asks of storage is a call that may fail without effect,
or may never come back.

* `Call`: the calls, by what they are made to;
* `Verdict`: what becomes of a call;
* `Verdict.run`.
-/

namespace Chronicle

/-- A question to the watermarks, or a write to them. -/
inductive MarkCall where
  | current
  | advance
  | drop
  | requestReset
  | resetRequested
  | all
deriving DecidableEq, Repr

/-- A call to storage. -/
inductive Call where
  | append
  | query
  | renew (view : String)
  | mark (call : MarkCall)
  | process (view : String)
  | clear (view : String)
deriving DecidableEq, Repr

/-- What becomes of a call. -/
inductive Verdict where
  /-- It is carried out. -/
  | pass
  /-- It fails and has no effect. -/
  | fail (e : Error)
  /-- Its caller is cut off, and it has no effect. -/
  | crash
deriving DecidableEq

/-- The result of a call under a verdict; none if its caller is cut off. -/
def Verdict.run {α : Type} (v : Verdict) (result : Except Error α) : Option (Except Error α) :=
  match v with
  | .pass => some result
  | .fail e => some (.error e)
  | .crash => none

end Chronicle
