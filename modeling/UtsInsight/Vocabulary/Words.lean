/-!
# Words of the language

The vocabulary that completion and hover offer without looking at a document: declaration keywords,
control keywords, built-in types and built-in functions. The order of each list is the order in
which its words are offered, and a look-up compares whole words with their case.
-/

namespace UtsInsight.Vocabulary

/-- A built-in type with its description. -/
structure TypeEntry where
  name : String
  description : String
  deriving DecidableEq, Repr

/-- Declaration and modifier keywords. -/
def keywords : List String :=
  [ "let", "const", "var", "function", "class", "interface", "type", "namespace", "module",
    "import", "export", "from", "as", "default", "extends", "implements", "static", "public",
    "private", "protected", "readonly", "abstract", "virtual", "override", "sealed", "final",
    "enum", "union", "intersection", "keyof", "typeof", "infer", "super", "this", "null",
    "undefined", "true", "false" ]

/-- Built-in types: primitives, then the standard library, then the wrappers of the platform. -/
def types : List TypeEntry :=
  [ ⟨"string", "Primitive string type for textual data."⟩,
    ⟨"number", "Primitive numeric type for integers and floating point values."⟩,
    ⟨"boolean", "Primitive type with the values true and false."⟩,
    ⟨"object", "Any non-primitive value."⟩,
    ⟨"array", "Ordered, indexable list of values."⟩,
    ⟨"any", "Opts out of type checking for a value."⟩,
    ⟨"void", "Absence of a return value."⟩,
    ⟨"never", "Type of values that never occur, such as a function that always throws."⟩,
    ⟨"unknown", "Type-safe counterpart of any; must be narrowed before use."⟩,
    ⟨"undefined", "Type of the undefined value."⟩,
    ⟨"null", "Type of the null value."⟩,
    ⟨"symbol", "Primitive type for unique symbol values."⟩,
    ⟨"bigint", "Primitive type for arbitrary precision integers."⟩,
    ⟨"Date", "Date and time value with calendar helpers."⟩,
    ⟨"RegExp", "Regular expression object."⟩,
    ⟨"Error", "Base class for runtime errors."⟩,
    ⟨"Function", "Type of all function values."⟩,
    ⟨"Promise", "Eventual result of an asynchronous operation."⟩,
    ⟨"Map", "Keyed collection that remembers insertion order."⟩,
    ⟨"Set", "Collection of unique values."⟩,
    ⟨"WeakMap", "Map with weakly held object keys."⟩,
    ⟨"WeakSet", "Set of weakly held objects."⟩,
    ⟨"ArrayBuffer", "Fixed-length raw binary data buffer."⟩,
    ⟨"DataView", "Low-level reader and writer over an ArrayBuffer."⟩,
    ⟨"Int8Array", "Typed array of 8-bit signed integers."⟩,
    ⟨"Uint8Array", "Typed array of 8-bit unsigned integers."⟩,
    ⟨"Uint8ClampedArray", "Typed array of 8-bit unsigned integers clamped to 0-255."⟩,
    ⟨"Int16Array", "Typed array of 16-bit signed integers."⟩,
    ⟨"Uint16Array", "Typed array of 16-bit unsigned integers."⟩,
    ⟨"Int32Array", "Typed array of 32-bit signed integers."⟩,
    ⟨"Uint32Array", "Typed array of 32-bit unsigned integers."⟩,
    ⟨"Float32Array", "Typed array of 32-bit floating point numbers."⟩,
    ⟨"Float64Array", "Typed array of 64-bit floating point numbers."⟩,
    ⟨"BigInt64Array", "Typed array of 64-bit signed big integers."⟩,
    ⟨"BigUint64Array", "Typed array of 64-bit unsigned big integers."⟩,
    ⟨"UTSJSONObject", "UTS dynamic JSON object with keyed access helpers."⟩,
    ⟨"UTSJSONValue", "Any value that can appear inside a UTS JSON document."⟩,
    ⟨"UTSArray", "UTS platform array with mutation helpers."⟩,
    ⟨"UTSString", "UTS platform string wrapper."⟩,
    ⟨"UTSNumber", "UTS platform number wrapper."⟩,
    ⟨"UTSBoolean", "UTS platform boolean wrapper."⟩ ]

/-- Keywords of control flow and of expressions. -/
def controlKeywords : List String :=
  [ "if", "else", "switch", "case", "default", "for", "while", "do", "break", "continue",
    "return", "throw", "try", "catch", "finally", "in", "of", "new", "delete", "void", "with",
    "yield", "await", "async" ]

/-- Functions that every program can call, some of them through the object that owns them. -/
def builtinFunctions : List String :=
  [ "console.log", "console.error", "console.warn", "console.info", "Array.isArray",
    "Object.keys", "Object.values", "Object.entries", "JSON.stringify", "JSON.parse", "parseInt",
    "parseFloat", "isNaN", "isFinite", "encodeURI", "decodeURI", "encodeURIComponent",
    "decodeURIComponent" ]

/-- Platform types that the advisory pass points out. -/
def customTypes : List String :=
  [ "UTSJSONObject", "UTSJSONValue", "UTSArray", "UTSString", "UTSNumber", "UTSBoolean" ]

def isKeyword (word : String) : Bool :=
  keywords.contains word

def isControlKeyword (word : String) : Bool :=
  controlKeywords.contains word

def isBuiltinFunction (word : String) : Bool :=
  builtinFunctions.contains word

def type? (name : String) : Option TypeEntry :=
  types.find? (·.name == name)

def isType (word : String) : Bool :=
  (type? word).isSome

end UtsInsight.Vocabulary
