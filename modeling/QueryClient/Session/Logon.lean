import QueryClient.Session.Calling
import QueryClient.Session.Negotiator
import QueryClient.Value.Access

/-!
# Logging on

A logon presents the credentials, and then answers one challenge after another with tokens of the
negotiator, until the server asks for no more. The session takes note of the last answer, and of
nothing before.
-/

namespace QueryClient.Session

variable {σ ν α : Type}

/-- The most challenges that one logon answers. -/
def maxLogonRounds : Nat := 16

/-- An operation on a session and a negotiator. -/
abbrev Exchange (σ ν α : Type) := ExceptT Fault (StateM (Session σ × ν)) α

/-- An operation on the session alone. -/
def onSession (op : Op σ α) : Exchange σ ν α :=
  fun (s, n) =>
    let (outcome, s) := op s
    (outcome, (s, n))

/-- An operation on the negotiator alone. -/
def onNegotiator (op : ν → Except Fault Bytes × ν) : Exchange σ ν Bytes :=
  fun (s, n) =>
    let (outcome, n) := op n
    (outcome, (s, n))

variable (link : Link σ)

/-- One step of a logon. What the server objects to is a failed logon. -/
def logonStep (method : String) (arg : Value) : Op σ LogonResult := do
  let value ← tryCatch (call link .logon method [arg]) fun
    | .remote exception => throw (.authentication (.byServer exception))
    | fault => throw fault
  ofExcept value.logonResult

variable (negotiator : Option (Negotiator ν))

/-- Answers the challenges of the server. -/
def answerChallenges : (rounds : Nat) → LogonResult → Exchange σ ν LogonResult
  | rounds, answer =>
    match answer.continuation with
    | none => return answer
    | some challenge =>
      match rounds with
      | 0 => throw (.authentication (.tooManyRounds maxLogonRounds))
      | rounds + 1 => do
        match negotiator with
        | none => throw (.authentication .noNegotiator)
        | some n =>
          let token ← onNegotiator (n.next challenge)
          answerChallenges rounds (← onSession (logonStep link "continueLogon" (.binary token)))

/-- The credentials as they are sent, with a first token if there is nothing else to present. -/
def presented (credentials : Credentials) : Exchange σ ν LogonRequest := do
  if credentials.needsInitialToken then
    match negotiator with
    | none => throw (.authentication .nothingToPresent)
    | some n => return { credentials.request with token := some (← onNegotiator n.initial) }
  else
    return credentials.request

def logon (credentials : Credentials) : Exchange σ ν LogonResult := do
  let request ← presented negotiator credentials
  let first ← onSession (logonStep link "logon" (.message (.logonRequest request)))
  let last ← answerChallenges link negotiator maxLogonRounds first
  onSession (modify fun s => { s with logonInfo := some last })
  return last

/-- Logs on with the user and the password of the settings. -/
def logonWithSettings : Op σ LogonResult := do
  match (← get).settings.credentials with
  | none => throw (.configuration .noUser)
  | some credentials =>
    let (outcome, (s, ())) := logon link none credentials (← get, ())
    set s
    ofExcept outcome

def logoff : Op σ Unit := do
  let _ ← call link .logon "logoff" []
  modify fun s => { s with logonInfo := none }

end QueryClient.Session
