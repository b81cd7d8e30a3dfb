import UtsInsight.Vocabulary.Words
import UtsInsight.Vocabulary.Members

/-!
# Signatures of built-in functions and global names

Call signatures for the free functions and for members that are called through their object, and the
names that a program may use without declaring them.
-/

namespace UtsInsight.Vocabulary

/-- Signature of a built-in function, under its bare or qualified name. -/
structure Signature where
  name : String
  parameters : List String
  returnType : String
  description : String
  deriving DecidableEq, Repr

/-- The signature in one line: name, parameters in parentheses, return type. -/
def Signature.label (s : Signature) : String :=
  s.name ++ "(" ++ ", ".intercalate s.parameters ++ "): " ++ s.returnType

def signatures : List Signature :=
  [ ⟨"parseInt", ["string: string", "radix?: number"], "number",
      "Parses a string and returns an integer."⟩,
    ⟨"parseFloat", ["string: string"], "number",
      "Parses a string and returns a floating point number."⟩,
    ⟨"isNaN", ["value: number"], "boolean", "Returns true if the value is NaN."⟩,
    ⟨"isFinite", ["value: number"], "boolean", "Returns true if the value is a finite number."⟩,
    ⟨"encodeURI", ["uri: string"], "string", "Encodes a complete URI."⟩,
    ⟨"decodeURI", ["encodedURI: string"], "string", "Decodes a complete URI."⟩,
    ⟨"encodeURIComponent", ["component: string"], "string", "Encodes a URI component."⟩,
    ⟨"decodeURIComponent", ["encodedComponent: string"], "string", "Decodes a URI component."⟩,
    ⟨"console.log", ["...data: any[]"], "void", "Writes a message to the console."⟩,
    ⟨"console.error", ["...data: any[]"], "void", "Writes an error message to the console."⟩,
    ⟨"console.warn", ["...data: any[]"], "void", "Writes a warning message to the console."⟩,
    ⟨"console.info", ["...data: any[]"], "void", "Writes an informational message to the console."⟩,
    ⟨"console.debug", ["...data: any[]"], "void", "Writes a debug message to the console."⟩,
    ⟨"Array.isArray", ["value: any"], "boolean", "Returns true if the value is an array."⟩,
    ⟨"Array.from", ["iterable: any"], "any[]",
      "Creates an array from an iterable or array-like value."⟩,
    ⟨"Array.of", ["...items: any[]"], "any[]", "Creates an array from its arguments."⟩,
    ⟨"Object.keys", ["o: object"], "string[]",
      "Returns the names of the enumerable own properties."⟩,
    ⟨"Object.values", ["o: object"], "any[]",
      "Returns the values of the enumerable own properties."⟩,
    ⟨"Object.entries", ["o: object"], "[string, any][]",
      "Returns key/value pairs of the enumerable own properties."⟩,
    ⟨"Object.assign", ["target: object", "...sources: any[]"], "any",
      "Copies own properties from sources into target."⟩,
    ⟨"JSON.stringify", ["value: any", "replacer?: any", "space?: string | number"], "string",
      "Converts a value to JSON text."⟩,
    ⟨"JSON.parse", ["text: string", "reviver?: any"], "any", "Parses JSON text into a value."⟩,
    ⟨"Math.abs", ["x: number"], "number", "Returns the absolute value."⟩,
    ⟨"Math.ceil", ["x: number"], "number", "Rounds up to the nearest integer."⟩,
    ⟨"Math.floor", ["x: number"], "number", "Rounds down to the nearest integer."⟩,
    ⟨"Math.round", ["x: number"], "number", "Rounds to the nearest integer."⟩,
    ⟨"Math.max", ["...values: number[]"], "number", "Returns the largest of the given numbers."⟩,
    ⟨"Math.min", ["...values: number[]"], "number", "Returns the smallest of the given numbers."⟩,
    ⟨"Math.pow", ["x: number", "y: number"], "number", "Returns x raised to the power y."⟩,
    ⟨"Math.sqrt", ["x: number"], "number", "Returns the square root."⟩,
    ⟨"Math.random", [], "number", "Returns a pseudo-random number in [0, 1)."⟩,
    ⟨"Number.isInteger", ["value: any"], "boolean", "Returns true if the value is an integer."⟩,
    ⟨"Date.now", [], "number", "Returns the current time in milliseconds since the epoch."⟩,
    ⟨"Promise.resolve", ["value: any"], "Promise<any>",
      "Returns a promise resolved with the value."⟩,
    ⟨"Promise.reject", ["reason?: any"], "Promise<never>",
      "Returns a promise rejected with the reason."⟩,
    ⟨"Promise.all", ["values: any[]"], "Promise<any[]>", "Resolves when all promises resolve."⟩,
    ⟨"Promise.race", ["values: any[]"], "Promise<any>",
      "Settles with the first promise to settle."⟩,
    ⟨"Promise.allSettled", ["values: any[]"], "Promise<any[]>",
      "Resolves when all promises settle."⟩ ]

def signature? (name : String) : Option Signature :=
  signatures.find? (·.name == name)

/-- Names that the hosts of a program provide. -/
def hostGlobals : List String :=
  [ "undefined", "NaN", "Infinity", "globalThis", "arguments", "require", "module", "exports",
    "setTimeout", "clearTimeout", "setInterval", "clearInterval", "Symbol", "BigInt", "Boolean",
    "Reflect", "Proxy", "Intl", "uni", "plus", "getApp", "getCurrentPages", "window", "document",
    "navigator", "location", "history", "self", "global", "process", "Buffer", "fetch",
    "localStorage", "sessionStorage", "queueMicrotask", "structuredClone",
    "requestAnimationFrame", "cancelAnimationFrame", "setImmediate", "clearImmediate", "atob",
    "btoa", "alert", "URL", "URLSearchParams", "TextEncoder", "TextDecoder", "AbortController",
    "Event", "EventTarget", "Blob", "File", "FormData", "Headers", "Request", "Response",
    "WebSocket", "Worker", "XMLHttpRequest", "wx", "my", "swan", "tt", "qq", "jd" ]

/-- The name before the first dot. -/
def ownerName (name : String) : String :=
  String.ofList (name.toList.takeWhile (· != '.'))

/-- Names that resolve without a declaration: those of the hosts, the built-in objects and types,
and the built-in functions or their owners. -/
def isGlobal (name : String) : Bool :=
  hostGlobals.contains name || isObject name || isType name
    || builtinFunctions.any fun function => ownerName function == name

end UtsInsight.Vocabulary
