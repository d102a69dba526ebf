import LogMotif.Action
import LogMotif.Json.Reader

/-! # Reading lists of actions

A list of actions is read from a text one action at a time, so the first fault in the order of the
text is the one reported. The name of an action is checked where it stands. Its fields are checked
once the action has been read to its end, so a fault in them is placed behind it.
-/

namespace LogMotif.Action

open Json

/-- Read the name of an action, which must be known. -/
def readKind : Read Kind := do
  match ← Read.startOfValue with
  | some '"' =>
    Read.advance
    match Kind.ofName (← Read.string .strict) with
    | .ok kind => return kind
    | .error detail => Read.failHere (.mismatch detail)
  | _ => Read.unexpected "variant identifier"

/-- What has been read of an action that is written as an object: its kind, and the other members
in reverse. -/
abbrev Members := Option Kind × List (String × Value)

/-- Read a member of an action behind its key. -/
def readMember (depth : Nat) (read : Members) (key : String) : Read Members := do
  let (kind?, members) := read
  if key = "action" then
    if kind?.isSome then Read.mismatched (.repeatedField key)
    Read.colon
    return (some (← readKind), members)
  else
    Read.colon
    return (kind?, (key, ← Read.value .strict depth) :: members)

/-- Read the members of an action that is written as an object. -/
def readMembers (depth : Nat) : Read (Kind × Value) := do
  match ← Read.membersToEnd .strict (readMember depth) (none, []) with
  | (some kind, members) => return (kind, .object members.reverse)
  | (none, _) => Read.mismatched (.missingField "action")

/-- Read the elements of an action that is written as an array. -/
def readElements (depth : Nat) : Read (Kind × Value) := do
  if ← Read.nextItem true then
    let kind ← readKind
    return (kind, .array (← Read.itemsToEnd (Read.value .strict depth) false))
  else Read.mismatched (.missingField "action")

/-- Read an action whose values may be nested to the given depth. -/
def read (depth : Nat) : Read Action := do
  let (kind, content) ←
    match ← Read.startOfValue with
    | some '[' => Read.listOf (readElements depth)
    | some '{' => Read.objectOf (readMembers depth)
    | _ => Read.unexpected expectation
  match ofFields kind content with
  | .ok action => return action
  | .error detail => Read.mismatched detail

/-- The actions that a text lists. -/
def listOfText (text : String) : Except Fault (List Action) :=
  let list : Read (List Action) := do
    match ← Read.startOfValue with
    | some '[' => Read.listOf (Read.itemsToEnd (read (nestingLimit - 2)) true)
    | _ => Read.unexpected "a sequence"
  list.run text

end LogMotif.Action
