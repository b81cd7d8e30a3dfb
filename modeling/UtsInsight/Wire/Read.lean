import UtsInsight.Session.Message

/-!
# Messages from JSON

A message has a method, which says what it is for, and parameters in JSON. Questions about open
documents are requests and news about them are notifications. The protocol has further methods of
both sorts, which are known here by name only. A method whose name begins with a dollar sign may be
ignored whatever it is. Parameters that cannot be read make no message.
-/

namespace UtsInsight.Wire

open Session

/-! ## Parameters -/

def readPosition? (json : Json) : Option Position := do
  return ⟨← (← json.field? "line").asNat?, ← (← json.field? "character").asNat?⟩

def readSpan? (json : Json) : Option Span := do
  return ⟨← readPosition? (← json.field? "start"), ← readPosition? (← json.field? "end")⟩

/-- A change, of the whole document if it has no range. -/
def readEdit? (json : Json) : Option Edit := do
  let text ← (← json.field? "text").asString?
  match json.given? "range" with
  | some range => return ⟨some (← readSpan? range), text.toList⟩
  | none => return ⟨none, text.toList⟩

/-- A field of the document that the parameters are about. -/
def documentField? (params : Json) (name : String) : Option Json := do
  (← params.field? "textDocument").field? name

def readUri? (params : Json) : Option Uri := do
  (← documentField? params "uri").asString?

def readVersion? (params : Json) : Option Int := do
  (← documentField? params "version").asInt?

/-- A question about a place of a document. -/
def readPlaceQuery? (ask : Uri → Position → Query) (params : Json) : Option Query := do
  return ask (← readUri? params) (← readPosition? (← params.field? "position"))

/-! ## Methods -/

/-- How to read the parameters of a method that is a question. -/
def queryReader? (method : String) : Option (Json → Option Query) :=
  match method with
  | "textDocument/completion" => some (readPlaceQuery? .completion)
  | "textDocument/hover" => some (readPlaceQuery? .hover)
  | "textDocument/definition" => some (readPlaceQuery? .definition)
  | "textDocument/references" => some (readPlaceQuery? .references)
  | "textDocument/signatureHelp" => some (readPlaceQuery? .signatureHelp)
  | "textDocument/documentSymbol" =>
    some fun params => (readUri? params).map Query.outline
  | _ => none

def readOpened? (params : Json) : Option Event := do
  let text ← (← documentField? params "text").asString?
  return .opened (← readUri? params) text.toList (← readVersion? params)

def readChanged? (params : Json) : Option Event := do
  let edits ← (← (← params.field? "contentChanges").asArray?).mapM readEdit?
  return .changed (← readUri? params) edits (← readVersion? params)

/-- How to read the parameters of a method that is news. -/
def eventReader? (method : String) : Option (Json → Option Event) :=
  match method with
  | "textDocument/didOpen" => some readOpened?
  | "textDocument/didChange" => some readChanged?
  | "textDocument/didClose" => some fun params => (readUri? params).map Event.closed
  | "workspace/didChangeConfiguration" =>
    some fun params => (params.field? "settings").map Event.configured
  | _ => none

/-- Requests of the protocol that are not served. -/
def unservedRequests : List String :=
  [ "textDocument/willSaveWaitUntil", "textDocument/declaration", "textDocument/typeDefinition",
    "textDocument/implementation", "textDocument/prepareCallHierarchy",
    "callHierarchy/incomingCalls", "callHierarchy/outgoingCalls",
    "textDocument/prepareTypeHierarchy", "typeHierarchy/supertypes", "typeHierarchy/subtypes",
    "textDocument/documentHighlight", "textDocument/documentLink", "documentLink/resolve",
    "textDocument/codeLens", "codeLens/resolve", "textDocument/foldingRange",
    "textDocument/selectionRange", "textDocument/semanticTokens/full",
    "textDocument/semanticTokens/full/delta", "textDocument/semanticTokens/range",
    "textDocument/inlineValue", "textDocument/inlayHint", "inlayHint/resolve",
    "textDocument/moniker", "completionItem/resolve", "textDocument/diagnostic",
    "workspace/diagnostic", "textDocument/codeAction", "codeAction/resolve",
    "textDocument/documentColor", "textDocument/colorPresentation", "textDocument/formatting",
    "textDocument/rangeFormatting", "textDocument/onTypeFormatting", "textDocument/rename",
    "textDocument/prepareRename", "textDocument/linkedEditingRange", "workspace/symbol",
    "workspaceSymbol/resolve", "workspace/willCreateFiles", "workspace/willRenameFiles",
    "workspace/willDeleteFiles", "workspace/executeCommand" ]

/-- Notifications of the protocol that have no effect. -/
def unservedNotifications : List String :=
  [ "initialized", "textDocument/willSave", "textDocument/didSave",
    "workspace/didChangeWorkspaceFolders", "workspace/didCreateFiles", "workspace/didRenameFiles",
    "workspace/didDeleteFiles", "workspace/didChangeWatchedFiles" ]

/-- Whether a method may be ignored whatever it is. -/
def isOptional (method : String) : Bool :=
  "$/".toList.isPrefixOf method.toList

/-! ## Messages -/

/-- The message of a request. -/
def readRequest? (method : String) (params : Json) : Option Message :=
  match method with
  | "initialize" => some (.startUp (params.given? "initializationOptions"))
  | "shutdown" => some .shutdown
  | "exit" => some .exit
  | _ =>
    match queryReader? method with
    | some read => (read params).map Message.query
    | none =>
      if unservedRequests.contains method then some .unserved
      else if (eventReader? method).isSome || unservedNotifications.contains method then
        some .misplaced
      else if isOptional method then some .ignored
      else some .unknown

/-- The message of a notification. -/
def readNotification? (method : String) (params : Json) : Option Message :=
  match method with
  | "shutdown" => some .silentShutdown
  | "exit" => some .exit
  | _ =>
    match eventReader? method with
    | some read => (read params).map Message.event
    | none => some .ignored

end UtsInsight.Wire
