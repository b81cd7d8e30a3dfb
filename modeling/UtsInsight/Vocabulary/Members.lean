/-!
# Members of built-in objects and classes

What can follow a dot. Global objects list the names of their members; the other built-in classes
list their methods with signature and description. No name is in both tables.
-/

namespace UtsInsight.Vocabulary

/-- A global object and the names of its members in the order offered. -/
structure ObjectMembers where
  object : String
  members : List String
  deriving DecidableEq, Repr

/-- A method of a built-in class. The signature holds the parameter list and the return type. -/
structure Method where
  name : String
  signature : String
  description : String
  deriving DecidableEq, Repr

/-- A built-in class and its methods. -/
structure ClassMethods where
  name : String
  methods : List Method
  deriving DecidableEq, Repr

def objects : List ObjectMembers :=
  [ ⟨"console", ["log", "error", "warn", "info", "debug", "time", "timeEnd"]⟩,
    ⟨"Array", ["isArray", "from", "of"]⟩,
    ⟨"Object", ["keys", "values", "entries", "assign", "create", "defineProperty"]⟩,
    ⟨"JSON", ["stringify", "parse"]⟩,
    ⟨"Math", ["abs", "ceil", "floor", "round", "max", "min", "pow", "sqrt", "random"]⟩,
    ⟨"String", ["fromCharCode", "fromCodePoint"]⟩,
    ⟨"Number", ["isFinite", "isInteger", "isNaN", "parseInt", "parseFloat"]⟩,
    ⟨"Date", ["now", "parse", "UTC"]⟩,
    ⟨"RegExp", ["test", "exec"]⟩,
    ⟨"Promise", ["resolve", "reject", "all", "race", "allSettled"]⟩,
    ⟨"Map", ["set", "get", "has", "delete", "clear", "size"]⟩,
    ⟨"Set", ["add", "has", "delete", "clear", "size"]⟩,
    ⟨"UTSJSONObject", ["get", "set", "has", "delete", "keys", "values", "entries"]⟩,
    ⟨"UTSArray", ["push", "pop", "shift", "unshift", "splice", "slice", "indexOf", "includes"]⟩ ]

def classes : List ClassMethods :=
  [ ⟨"UTSString",
      [ ⟨"charAt", "(index: number): string", "Returns the character at the given index."⟩,
        ⟨"indexOf", "(search: string, position?: number): number",
          "Returns the index of the first occurrence, or -1."⟩,
        ⟨"includes", "(search: string): boolean",
          "Returns true if the string contains the search text."⟩,
        ⟨"split", "(separator: string): string[]", "Splits the string into substrings."⟩,
        ⟨"substring", "(start: number, end?: number): string",
          "Returns the part of the string between two indices."⟩,
        ⟨"toUpperCase", "(): string", "Converts all characters to upper case."⟩,
        ⟨"toLowerCase", "(): string", "Converts all characters to lower case."⟩,
        ⟨"trim", "(): string", "Removes leading and trailing whitespace."⟩,
        ⟨"replace", "(pattern: string | RegExp, replacement: string): string",
          "Replaces the first match of a pattern."⟩,
        ⟨"startsWith", "(search: string): boolean",
          "Returns true if the string begins with the search text."⟩,
        ⟨"endsWith", "(search: string): boolean",
          "Returns true if the string ends with the search text."⟩ ]⟩,
    ⟨"UTSNumber",
      [ ⟨"toFixed", "(digits?: number): string", "Formats the number using fixed-point notation."⟩,
        ⟨"toPrecision", "(precision?: number): string",
          "Formats the number to the given precision."⟩,
        ⟨"toString", "(radix?: number): string",
          "Returns the string representation in the given radix."⟩,
        ⟨"valueOf", "(): number", "Returns the primitive number value."⟩ ]⟩,
    ⟨"UTSBoolean",
      [ ⟨"toString", "(): string", "Returns \"true\" or \"false\"."⟩,
        ⟨"valueOf", "(): boolean", "Returns the primitive boolean value."⟩ ]⟩,
    ⟨"UTSJSONValue",
      [ ⟨"toString", "(): string", "Serializes the value to JSON text."⟩,
        ⟨"valueOf", "(): any", "Returns the underlying value."⟩ ]⟩,
    ⟨"Error",
      [ ⟨"toString", "(): string", "Returns the error name and message."⟩ ]⟩,
    ⟨"WeakMap",
      [ ⟨"get", "(key: object): any", "Returns the value stored for the key."⟩,
        ⟨"set", "(key: object, value: any): WeakMap", "Stores a value for the key."⟩,
        ⟨"has", "(key: object): boolean", "Returns true if the key is present."⟩,
        ⟨"delete", "(key: object): boolean", "Removes the key and its value."⟩ ]⟩,
    ⟨"WeakSet",
      [ ⟨"add", "(value: object): WeakSet", "Adds an object to the set."⟩,
        ⟨"has", "(value: object): boolean", "Returns true if the object is in the set."⟩,
        ⟨"delete", "(value: object): boolean", "Removes the object from the set."⟩ ]⟩,
    ⟨"ArrayBuffer",
      [ ⟨"slice", "(begin: number, end?: number): ArrayBuffer",
          "Copies a byte range into a new buffer."⟩ ]⟩,
    ⟨"DataView",
      [ ⟨"getInt8", "(byteOffset: number): number", "Reads a signed 8-bit integer."⟩,
        ⟨"getUint8", "(byteOffset: number): number", "Reads an unsigned 8-bit integer."⟩,
        ⟨"getInt32", "(byteOffset: number, littleEndian?: boolean): number",
          "Reads a signed 32-bit integer."⟩,
        ⟨"getFloat64", "(byteOffset: number, littleEndian?: boolean): number",
          "Reads a 64-bit float."⟩,
        ⟨"setInt8", "(byteOffset: number, value: number): void", "Writes a signed 8-bit integer."⟩,
        ⟨"setUint8", "(byteOffset: number, value: number): void",
          "Writes an unsigned 8-bit integer."⟩,
        ⟨"setInt32", "(byteOffset: number, value: number, littleEndian?: boolean): void",
          "Writes a signed 32-bit integer."⟩,
        ⟨"setFloat64", "(byteOffset: number, value: number, littleEndian?: boolean): void",
          "Writes a 64-bit float."⟩ ]⟩ ]

/-- Member names of a global object. -/
def members? (object : String) : Option (List String) :=
  (objects.find? (·.object == object)).map (·.members)

def isObject (word : String) : Bool :=
  (members? word).isSome

/-- Methods of a built-in class. -/
def methods? (className : String) : Option (List Method) :=
  (classes.find? (·.name == className)).map (·.methods)

/-- A method of a built-in class. -/
def method? (className methodName : String) : Option Method :=
  (methods? className).bind fun methods => methods.find? (·.name == methodName)

end UtsInsight.Vocabulary
