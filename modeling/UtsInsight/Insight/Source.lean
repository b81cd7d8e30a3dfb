import UtsInsight.Insight.Navigation
import UtsInsight.Model
import UtsInsight.Outline.Initializer
import UtsInsight.Outline.Methods

/-!
# Sources of knowledge

Completion and hover ask the same sources: the semantic model, the signatures of built-in functions,
the outline of the text, and the vocabulary of the language. A source may know the members behind a
receiver, and it may be able to describe the word under the cursor. Each feature has its own order
of sources, and the first one with an answer is heard.
-/

namespace UtsInsight.Insight

open UtsInsight.Text

/-- What a request is about: a position, the line that holds it, and the model of the document. -/
structure Query where
  text : List Char
  position : Position
  line : List Char
  model : Model

def Query.at (text : List Char) (position : Position) (model : Model) : Query :=
  ⟨text, position, lineAt text position.line, model⟩

/-- What an answer is about. -/
inductive TopicKind where
  /-- A member of a global object. -/
  | objectMember
  | method
  | property
  | function
  /-- A declaration of the outline. -/
  | declaration (kind : SymbolKind)
  /-- A declaration of the model, with the kind as a reader sees it. -/
  | semantic (label : String)
  | keyword
  | controlKeyword
  | type
  | builtinFunction
  deriving DecidableEq, Repr

namespace TopicKind

def label : TopicKind → String
  | .objectMember => "object member"
  | .method => "method"
  | .property => "property"
  | .function => "function"
  | .declaration kind => kind.label
  | .semantic label => label
  | .keyword => "UTS keyword"
  | .controlKeyword => "UTS control keyword"
  | .type => "UTS type"
  | .builtinFunction => "UTS built-in function"

def completionKind : TopicKind → CompletionKind
  | .objectMember | .method => .method
  | .property => .property
  | .function | .builtinFunction => .function
  | .declaration kind => kind.completionKind
  | .semantic _ => .variable
  | .keyword | .controlKeyword => .keyword
  | .type => .typeParameter

end TopicKind

/-- One answer of a source. -/
structure Topic where
  name : String
  kind : TopicKind
  /-- Code shown in a tooltip or beside a completion. -/
  signature : Option String := none
  /-- Declared or inferred type. -/
  type : Option String := none
  documentation : Option String := none
  /-- Line of the declaration that the answer came from. -/
  line : Option Nat := none
  deriving DecidableEq, Repr

/-- A source of knowledge. -/
structure Source where
  name : String
  /-- The members behind a receiver. -/
  members : Query → String → List Topic
  /-- The description of the word under the cursor. -/
  describe? : Query → CursorWord → Option Topic

/-! ## Signatures of built-in functions -/

/-- A member of a global object. -/
def objectMember (object member : String) : Topic :=
  { name := member
    kind := .objectMember
    signature := some ("Member of " ++ object)
    documentation :=
      match Vocabulary.signature? (object ++ "." ++ member) with
      | some s => some s.description
      | none => some ("Accesses the " ++ member ++ " member of " ++ object ++ ".") }

/-- A method of a built-in class under a name. -/
def builtinMethod (name : String) (m : Vocabulary.Method) : Topic :=
  { name, kind := .method, signature := some (m.name ++ m.signature)
    documentation := some m.description }

/-- A built-in function. -/
def builtinSignature (name : String) (s : Vocabulary.Signature) : Topic :=
  { name, kind := .function, signature := some s.label, documentation := some s.description }

def catalogMembers (receiver : String) : List Topic :=
  match Vocabulary.members? receiver with
  | some members => members.map (objectMember receiver)
  | none =>
    match Vocabulary.methods? receiver with
    | some methods => methods.map fun m => builtinMethod m.name m
    | none => []

/-- The description of a member of a built-in object or class. -/
def describeBuiltinMember? (receiver member : String) : Option Topic :=
  let name := receiver ++ "." ++ member
  match Vocabulary.signature? name with
  | some s => some (builtinSignature name s)
  | none =>
    if ((Vocabulary.members? receiver).getD []).contains member then
      some { name, kind := .objectMember
             documentation :=
               some ("The " ++ member ++ " method or property of the " ++ receiver ++ " object.") }
    else (Vocabulary.method? receiver member).map (builtinMethod name)

/-- Members of global objects, methods of built-in classes, and signatures of calls. -/
def signatureSource : Source where
  name := "signature catalog"
  members _ receiver := catalogMembers receiver
  describe? query word :=
    match word.receiver? query.line with
    | some receiver => describeBuiltinMember? receiver word.text
    | none =>
      if word.isCalled query.line then
        (Vocabulary.signature? word.text).map (builtinSignature word.text)
      else none

/-! ## Outline of the text -/

/-- Methods that the lines of a class of the text declare. -/
def declaredMethods (text : List Char) (className : String) : List Topic :=
  (Outline.classMethods text className).map fun m =>
    { name := m.name, kind := .method, signature := some (m.name ++ m.signature)
      type := some m.returnType }

/-- The kinds of declarations that the outline describes. -/
def describedKinds : List SymbolKind :=
  [.genericFunction, .function, .classType, .interface, .variable, .constant]

/-- The description of a declaration of the outline. A variable without annotation gets the type
guessed from its initializer. -/
def describeEntry (text : List Char) (entry : Outline.Entry) : Topic :=
  let topic : Topic :=
    { name := entry.name, kind := .declaration entry.kind, signature := some entry.signature
      type := entry.declaredType, line := some entry.line }
  if entry.kind.isVariable && entry.declaredType.isNone then
    let guessed := match entry.initializer with
      | some value => Outline.guessType value text
      | none => unknownType
    { topic with signature := some (entry.signature ++ ": " ++ guessed), type := some guessed }
  else topic

/-- Declarations found by a look at each line. -/
def outlineSource : Source where
  name := "lexical scan"
  members query receiver := declaredMethods query.text receiver
  describe? query word :=
    (Outline.find? query.text word.text describedKinds).map (describeEntry query.text)

/-! ## Semantic model -/

def memberTopic (member : Member) : Topic :=
  { name := member.name
    kind := match member.kind with
      | .method => .method
      | .property => .property
    signature := some member.type
    type := some member.type }

/-- The members of a receiver that is visible at the position of a query: the methods that the text
declares for the class its type names, or else the members that the model knows. -/
def modelMembers (query : Query) (receiver : String) : List Topic :=
  match (query.model.symbolsInScope query.position []).find? (·.name == receiver) with
  | none => []
  | some symbol =>
    let scanned := declaredMethods query.text (instanceName symbol.type)
    if scanned.isEmpty then
      (query.model.membersOf symbol.type query.position).map memberTopic
    else scanned

def describeName (info : NameInfo) : Topic :=
  { name := info.name
    kind := .semantic info.kind
    signature := some ("(" ++ info.kind ++ ") " ++ info.name ++ ": " ++ info.type)
    type := some info.type
    line := some info.declaredAt.start.line }

/-- What the model of the document knows. -/
def modelSource : Source where
  name := "semantic model"
  members := modelMembers
  describe? query _ := (query.model.describeAt? query.position).map describeName

/-! ## Vocabulary -/

/-- The description of a built-in function by the first of the names that is one. -/
def describeBuiltin? (names : List String) : Option Topic :=
  (names.find? Vocabulary.isBuiltinFunction).map fun name =>
    { name, kind := .builtinFunction
      signature := (Vocabulary.signature? name).map (·.label)
      documentation := some "Built-in function provided by the UTS runtime." }

/-- The description of a word of the language, behind a receiver or not. -/
def describeVocabulary? (receiver : Option String) (word : String) : Option Topic :=
  if Vocabulary.isKeyword word then
    some { name := word, kind := .keyword
           documentation :=
             some "Declares variables, constants, functions and other program elements." }
  else match Vocabulary.type? word with
    | some entry => some { name := word, kind := .type, documentation := some entry.description }
    | none =>
      if Vocabulary.isControlKeyword word then
        some { name := word, kind := .controlKeyword
               documentation := some "Controls program flow." }
      else
        describeBuiltin? ((receiver.map fun r => r ++ "." ++ word).toList ++ [word])

/-- Keywords, types and built-in functions. -/
def vocabularySource : Source where
  name := "vocabulary catalog"
  members _ _ := []
  describe? query word := describeVocabulary? (word.receiver? query.line) word.text

/-! ## Orders of sources -/

/-- Sources of members, the first to be heard first. -/
def memberSources : List Source :=
  [signatureSource, outlineSource, modelSource]

/-- Sources of descriptions, the first to be heard first. -/
def descriptionSources : List Source :=
  [modelSource, signatureSource, outlineSource, vocabularySource]

/-- The members of the first source that has any. -/
def firstMembers (query : Query) (receiver : String) : List Source → List Topic
  | [] => []
  | s :: rest =>
    let members := s.members query receiver
    if members.isEmpty then firstMembers query receiver rest else members

/-- The description of the first source that has one. -/
def firstDescription? (query : Query) (word : CursorWord) (sources : List Source) :
    Option Topic :=
  sources.findSome? fun s => s.describe? query word

end UtsInsight.Insight
