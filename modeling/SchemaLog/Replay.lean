import SchemaLog.Schema
import Std.Data.ExtTreeMap

/-!
# Replay — applying commands in order

An `Evolution` is the state of a replay.  Its parts are kept apart: the names of the documents in
the order of their declaration, the documents by name, the commands that were accepted, the version
they lead to and the steps they leave.  `Evolution.apply` tries one command, `Evolution.applyAll`
stops at the first refusal, and both give the evolution as they leave it even if a command is
refused.  `replay` starts from nothing and gives the schema only if every command is accepted.
-/

namespace SchemaLog

/-- What is asked of the stamps in a replay; that they are not 0 is asked always. -/
inductive VersionPolicy
  /-- No stamp is below the current version. -/
  | nonDecreasing
  /-- Lower stamps are accepted; the current version stays the highest one. -/
  | lenient
  deriving DecidableEq

/-- A refused command: how many commands were accepted before it, what it was about, and why it was
refused. -/
structure Refusal where
  index : Nat
  kind : CommandKind
  document : String
  field? : Option String
  reason : Rejection
  deriving DecidableEq

/-- The refusal of a command. -/
def Refusal.ofCommand (index : Nat) (c : Command) (reason : Rejection) : Refusal :=
  ⟨index, c.kind, c.document, c.field?, reason⟩

/-- Documents by name. -/
abbrev Catalog := Std.ExtTreeMap String Document

/-- Takes documents out of a catalog, one name after the other; a name under which there is nothing
(any more) is passed over. -/
def Catalog.takeOut : List String → Catalog → List Document
  | [], _ => []
  | name :: rest, catalog =>
    match catalog[name]? with
    | none => takeOut rest (catalog.erase name)
    | some d => d :: takeOut rest (catalog.erase name)

/-- The state of a replay. -/
structure Evolution where
  policy : VersionPolicy
  /-- The names of the documents, in the order of their declaration. -/
  order : List String
  catalog : Catalog
  commands : List Command
  currentVersion : Version
  steps : List Step
  deriving DecidableEq

namespace Evolution

/-- Nothing is applied yet, and the current version is 0. -/
def start (policy : VersionPolicy) : Evolution :=
  ⟨policy, [], ∅, [], 0, []⟩

/-- The document of a name. -/
def document? (e : Evolution) (name : String) : Option Document :=
  e.catalog[name]?

/-- The documents, in the order of their declaration. -/
def documents (e : Evolution) : List Document :=
  e.order.filterMap e.document?

/-- What is wrong with a stamp at this point. -/
def stampFault? (e : Evolution) (version : Version) : Option Rejection :=
  if version = 0 then some (.lowVersion version e.currentVersion)
  else if version < e.currentVersion then
    match e.policy with
    | .nonDecreasing => some (.lowVersion version e.currentVersion)
    | .lenient => none
  else none

/-- Declares a document. -/
def declare (e : Evolution) (name : String) (fields : List Field) (version : Version) :
    Evolution × Option Rejection :=
  if name ∈ e.catalog then (e, some (.duplicateDocument name))
  else
    match Document.declare name fields version with
    | .error reason => (e, some reason)
    | .ok d => ({ e with order := e.order ++ [name], catalog := e.catalog.insert name d }, none)

/-- Changes a document in its place in the catalog, where it stays as the change leaves it. -/
def change (e : Evolution) (name : String) (c : Change) : Evolution × Option Rejection :=
  match e.document? name with
  | none => (e, some (.unknownDocument name))
  | some d => ({ e with catalog := e.catalog.insert name (d.change c).1 }, (d.change c).2)

/-- What a command does to the documents; the stamp is looked at before anything else. -/
def transition (e : Evolution) (c : Command) : Evolution × Option Rejection :=
  match e.stampFault? c.version with
  | some reason => (e, some reason)
  | none =>
    match c.action with
    | .declare fields => e.declare c.document fields c.version
    | .change change => e.change c.document change

/-- Notes an accepted command in the log. -/
def note (e : Evolution) (c : Command) : Evolution :=
  { e with
    commands := e.commands ++ [c]
    currentVersion := max e.currentVersion c.version
    steps := e.steps ++ [Step.ofCommand c] }

/-- Tries one command. -/
def apply (e : Evolution) (c : Command) : Evolution × Option Refusal :=
  match e.transition c with
  | (e', some reason) => (e', some (.ofCommand e.commands.length c reason))
  | (e', none) => (e'.note c, none)

/-- Applies commands up to the first that is refused: what was reached, and the refusal. -/
def applyAll (e : Evolution) : List Command → Evolution × Option Refusal
  | [] => (e, none)
  | c :: rest =>
    match e.apply c with
    | (e', some refusal) => (e', some refusal)
    | (e', none) => e'.applyAll rest

/-- The schema reached so far.  The documents are taken out of the catalog in order. -/
def resolve (e : Evolution) : Schema :=
  { currentVersion := e.currentVersion
    steps := e.steps
    documents := e.catalog.takeOut e.order }

theorem applyAll_append (e : Evolution) (cs ds : List Command) :
    e.applyAll (cs ++ ds)
      = match e.applyAll cs with
        | (e', none) => e'.applyAll ds
        | (e', some refusal) => (e', some refusal) := by
  induction cs generalizing e with
  | nil => rfl
  | cons c cs ih =>
    simp only [List.cons_append, applyAll]
    rcases e.apply c with ⟨e', _ | refusal⟩
    · exact ih e'
    · rfl

end Evolution

/-- The schema that a list of commands leads to, or the first refusal. -/
def replay (policy : VersionPolicy) (commands : List Command) : Except Refusal Schema :=
  match (Evolution.start policy).applyAll commands with
  | (e, none) => .ok e.resolve
  | (_, some refusal) => .error refusal

@[simp] theorem replay_nil (policy : VersionPolicy) :
    replay policy [] = .ok { currentVersion := 0, steps := [], documents := [] } := rfl

end SchemaLog
