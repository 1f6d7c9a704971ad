import Interstellar.Term.Record

/-!
# Faults

Every way an operation of this library can fail, as a cause. `Fault.kind` names the class of
the failure and `Fault.message` gives its text; both are part of every answer that reports a
failure, so their wording is fixed here and nowhere else.

The classes are those a caller of the programs sees: `ValueError` for a value of the right type
that is not acceptable (an unknown token, operator or node type, an operand of the wrong
kind), `KeyError` for a lookup that finds nothing, `TypeError` for an operation applied to a
value of a type it does not take, `ZeroDivisionError`, `NameError` for an unbound variable of
a compiled program, `SyntaxError` for compiled text that the target cannot read (nested too
deeply, holding a NUL, with a broken string literal, or no expression), and a few more.
-/

namespace Interstellar

/-- The key of a failed lookup: text (a character, a field name) or a number. -/
inductive Key where
  | text (s : String)
  | int (n : Int)
  /-- A pair of integers, such as a cell of a board. -/
  | pair (a b : Int)
  /-- The absent value. -/
  | nothing
  deriving Inhabited

/-- How a failed lookup shows its key: text quoted, numbers in decimal. -/
def Key.show : Key → String
  | .text s => Notation.string s
  | .int n => toString n
  | .pair a b => "(" ++ toString a ++ ", " ++ toString b ++ ")"
  | .nothing => "None"

/-- What an operator wanted of its operands. -/
inductive Want where
  | integer
  | boolean
  | string
  | comparable
  deriving Inhabited

/-- The words for what an operator wanted. -/
def Want.phrase : Want → String
  | .integer => "integer"
  | .boolean => "boolean"
  | .string => "string"
  | .comparable => "integers or strings or booleans"

/-- A reason an operation fails. Type names are the names of `Value.typeName` and
`Doc.typeName`. -/
inductive Fault where
  /-- A token whose first character starts no kind of token. -/
  | unknownToken (token : String)
  /-- A lookup that found nothing: a character outside a table, a missing field. -/
  | missing (key : Key)
  /-- A document that is no node was asked for a field. -/
  | notANode (d : Doc)
  /-- A node whose declared type is none of the eight. -/
  | unknownType (t : Doc)
  /-- A unary operator with an unknown name. -/
  | unknownUnary (op : String)
  /-- A binary operator with an unknown name. -/
  | unknownBinary (op : String)
  /-- An application whose function side did not reduce to a lambda. -/
  | notLambda (got : Term)
  /-- Operands of the wrong kind for an operator. -/
  | expected (want : Want) (got : List Term)
  /-- Division by zero. -/
  | divisionByZero
  /-- Remainder by zero. -/
  | moduloByZero
  /-- Iteration over a value that is no sequence. -/
  | notIterable (ty : String)
  /-- An order comparison between values of types that have none. -/
  | unordered (op : String) (lhs rhs : String)
  /-- A binary arithmetic operator on types it does not take. -/
  | unsupported (op : String) (lhs rhs : String)
  /-- Concatenation of a string with a value of another type. -/
  | concatNonString (rhs : String)
  /-- Repetition of a string by a count that is no integer. -/
  | repeatByNonInt (rhs : String)
  /-- A one-operand operation (`unary -`, `abs()`) on a type it does not take. -/
  | badOperand (op : String) (ty : String)
  /-- Slicing a value that is no sequence. -/
  | notSubscriptable (ty : String)
  /-- A slice bound that is no integer. -/
  | badSliceIndex
  /-- Calling a value that is no function. -/
  | notCallable (ty : String)
  /-- A variable of a compiled program that no enclosing function binds. -/
  | unbound (name : String)
  /-- Compiled text with brackets nested more than 200 deep. -/
  | tooManyParens
  /-- Compiled text holding a NUL character, which the target refuses before reading it. -/
  | nullBytes
  /-- Compiled text with a string literal that a line end breaks off. -/
  | unterminatedString
  /-- Compiled text that reads as tokens but is no expression, such as an abstraction over a
  negative number. -/
  | invalidSyntax
  /-- A repetition count too large to be a size. -/
  | sizeOverflow
  /-- A repetition longer than the largest size. -/
  | repeatTooLong
  /-- A computation nested beyond the evaluator's depth. -/
  | tooDeep
  /-- A value of type `ty` was asked for an attribute it does not have. -/
  | noAttribute (ty attr : String)
  /-- A node document whose fields are present but of no usable type. -/
  | illFormed (d : Doc)
  /-- A result too large to hold. -/
  | outOfMemory
  /-- A position past the end of a sequence (`string`, `list`, `tuple`). -/
  | indexOutOfRange (seq : String)
  /-- A token text that the compact codec cannot read. -/
  | unknownTokenKind
  /-- A value of a type that the compact codec cannot write. -/
  | unsupportedType
  /-- A line was read after the end of the input. -/
  | endOfInput
  /-- A key was read after the end of the input. -/
  | endOfKeys
  /-- A message was posted when the server had no reply left. -/
  | noReply
  /-- A text that is no decimal integer. -/
  | notAnInteger (text : String)
  /-- A bare refusal of a value, with no text. -/
  | refused
  /-- A file that does not exist was opened. -/
  | noFile (path : String)
  /-- A lookup of a board cell that has no entry, whose key cannot be shown either. -/
  | missingNode
  /-- The least or greatest of an empty collection, asked by the function named. -/
  | emptyChoice (fn : String)
  /-- A pair where more values were to be unpacked. -/
  | tooFewValues (expected got : Nat)
  /-- A local name read before anything was given to it. -/
  | unassigned (name : String)
  /-- Taking the first item of an empty list. -/
  | popEmpty
  /-- A file read that names a directory. -/
  | isDirectory (path : String)
  /-- A file whose name is longer than a file system allows. -/
  | nameTooLong (path : String)
  /-- Writing a value that is not text to a text file. -/
  | writeNonText (ty : String)
  /-- A loop that never ends, such as a walk back along predecessors that goes round a cycle.
  No answer ever comes; a caller that waits for one gives up after its time limit. -/
  | endless
  deriving Inhabited

namespace Fault

/-- The class of a failure. -/
def kind : Fault → String
  | .unknownTokenKind | .unsupportedType
  | .unknownToken _ | .unknownType _ | .unknownUnary _ | .unknownBinary _ | .notLambda _
  | .expected .. => "ValueError"
  | .missing _ | .missingNode => "KeyError"
  | .emptyChoice _ | .tooFewValues .. => "ValueError"
  | .unassigned _ => "UnboundLocalError"
  | .popEmpty => "IndexError"
  | .divisionByZero | .moduloByZero => "ZeroDivisionError"
  | .unbound _ => "NameError"
  | .tooManyParens | .nullBytes | .unterminatedString | .invalidSyntax => "SyntaxError"
  | .sizeOverflow | .repeatTooLong => "OverflowError"
  | .tooDeep => "RecursionError"
  | .noAttribute .. => "AttributeError"
  | .outOfMemory => "MemoryError"
  | .indexOutOfRange _ => "IndexError"
  | .endOfInput | .endOfKeys => "EOFError"
  | .notAnInteger _ | .refused => "ValueError"
  | .noFile _ => "FileNotFoundError"
  | .isDirectory _ => "IsADirectoryError"
  | .nameTooLong _ => "OSError"
  | .noReply => "ConnectionError"
  | .endless => "Timeout"
  | .notANode _ | .notIterable _ | .unordered .. | .unsupported .. | .concatNonString _
  | .repeatByNonInt _ | .badOperand .. | .notSubscriptable _ | .badSliceIndex
  | .notCallable _ | .illFormed _ | .writeNonText _ => "TypeError"

/-- A type name between single quotes. -/
def quoted (ty : String) : String := "'" ++ ty ++ "'"

/-- How an unknown node type shows in its message: text as it is, anything else in the
notation of messages. -/
def typeText : Doc → String
  | .str s => s
  | d => Notation.doc d

/-- The text of a failure; `none` when it has none. -/
def message : Fault → Option String
  | .unknownToken t => some ("Unknown token type: " ++ t)
  | .missing k => some k.show
  | .notANode (.arr _) => some "list indices must be integers or slices, not str"
  | .notANode (.str _) => some "string indices must be integers, not 'str'"
  | .notANode d => some (quoted d.typeName ++ " object is not subscriptable")
  | .unknownType t => some ("Unknown type: " ++ typeText t)
  | .unknownUnary op => some ("Unknown unary operator: " ++ op)
  | .unknownBinary op => some ("Unknown binary operator: " ++ op)
  | .notLambda t => some ("Expected lambda, got " ++ t.record)
  | .expected w ts => some ("Expected " ++ w.phrase ++ ", got " ++
      " and ".intercalate (ts.map Term.record))
  | .divisionByZero => some "integer division or modulo by zero"
  | .moduloByZero => some "integer modulo by zero"
  | .notIterable ty => some (quoted ty ++ " object is not iterable")
  | .unordered op a b =>
    some (quoted op ++ " not supported between instances of " ++ quoted a ++ " and " ++ quoted b)
  | .unsupported op a b =>
    some ("unsupported operand type(s) for " ++ op ++ ": " ++ quoted a ++ " and " ++ quoted b)
  | .concatNonString b => some ("can only concatenate str (not \"" ++ b ++ "\") to str")
  | .repeatByNonInt b => some ("can't multiply sequence by non-int of type " ++ quoted b)
  | .badOperand op ty => some ("bad operand type for " ++ op ++ ": " ++ quoted ty)
  | .notSubscriptable ty => some (quoted ty ++ " object is not subscriptable")
  | .badSliceIndex => some "slice indices must be integers or None or have an __index__ method"
  | .notCallable ty => some (quoted ty ++ " object is not callable")
  | .unbound name => some ("name " ++ quoted name ++ " is not defined")
  | .tooManyParens => some "too many nested parentheses (<string>, line 1)"
  | .nullBytes => some "source code string cannot contain null bytes"
  | .unterminatedString => some "unterminated string literal (detected at line 1) (<string>, line 1)"
  | .invalidSyntax => some "invalid syntax (<string>, line 1)"
  | .sizeOverflow => some "cannot fit 'int' into an index-sized integer"
  | .repeatTooLong => some "repeated string is too long"
  | .tooDeep => some "maximum recursion depth exceeded"
  | .noAttribute ty attr =>
    some (quoted ty ++ " object has no attribute " ++ quoted attr)
  | .illFormed d => some ("unusable node " ++ Notation.doc d)
  | .outOfMemory => some ""
  | .indexOutOfRange seq => some (seq ++ " index out of range")
  | .unknownTokenKind => some "Unknown token type"
  | .unsupportedType => some "Unsupported type"
  | .endOfInput => some "EOF when reading a line"
  | .endOfKeys => some "oracle: stdin exhausted"
  | .noReply => some "oracle: no scripted response left"
  | .notAnInteger s => some ("invalid literal for int() with base 10: " ++ Notation.string s)
  | .refused => some ""
  | .noFile path => some ("[Errno 2] No such file or directory: " ++ Notation.string path)
  | .missingNode => none
  | .emptyChoice fn => some (fn ++ "() arg is an empty sequence")
  | .tooFewValues e g =>
    some ("not enough values to unpack (expected " ++ toString e ++ ", got " ++ toString g ++ ")")
  | .unassigned name =>
    some ("cannot access local variable " ++ quoted name ++ " where it is not associated with a value")
  | .popEmpty => some "pop from empty list"
  | .isDirectory path => some ("[Errno 21] Is a directory: " ++ Notation.string path)
  | .nameTooLong path => some ("[Errno 36] File name too long: " ++ Notation.string path)
  | .writeNonText ty => some ("write() argument must be str, not " ++ ty)
  | .endless => none

end Fault

/-- The fields a node of the named type has, in the order in which operations read them. -/
def nodeFields : String → Option (List String)
  | "integer" | "string" | "boolean" => some ["value"]
  | "unary" => some ["op", "left"]
  | "binop" => some ["op", "left", "right"]
  | "lambda" => some ["var", "body"]
  | "var" => some ["var"]
  | "if" => some ["condition", "true", "false"]
  | _ => none

/-- Why a document that is no well-formed node cannot be used as one: it is no object, it
has no type, its type is unknown, or it lacks a field of its type (the first in reading
order). -/
def Doc.nodeFault (d : Doc) : Fault :=
  match d with
  | .obj _ =>
    match d.get? "type" with
    | none => .missing (.text "type")
    | some (.str s) =>
      match nodeFields s with
      | none => .unknownType (.str s)
      | some fs =>
        match fs.find? (fun f => !d.has f) with
        | some f => .missing (.text f)
        | none => .illFormed d
    | some t => .unknownType t
  | _ => .notANode d

end Interstellar
