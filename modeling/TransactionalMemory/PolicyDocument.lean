import TransactionalMemory.RetryPolicy
import TransactionalMemory.Toml.Records

/-! Retry policies as TOML documents, by any library for TOML. A part that is missing in a document
takes its standard value. -/
namespace TransactionalMemory.RetryPolicy

def fields (policy : RetryPolicy) : Fin 3 → Toml.Field
  | 0 => ⟨"max_retries", "usize", policy.maxRetries⟩
  | 1 => ⟨"base_delay_ms", "u64", policy.baseDelay⟩
  | 2 => ⟨"max_delay_ms", "u64", policy.maxDelay⟩

def ofWords (words : Fin 3 → UInt64) : RetryPolicy :=
  ⟨words 0, words 1, words 2⟩

section
variable (library : Toml.Library)

def read (text : String) : Except Failure RetryPolicy :=
  match library.read standard.fields text with
  | .ok words => .ok (ofWords words)
  | .error reason => .error (.breach (.policyMalformed reason))

def unreadable (path reason : String) : Except Failure RetryPolicy :=
  .error (.breach (.policyUnreadable (" '" ++ path ++ "': " ++ reason)))

/-- A file that does not exist, or that is no text, cannot be read. -/
def readFile (path : String) : Option ByteArray → Except Failure RetryPolicy
  | none => unreadable path "No such file or directory (os error 2)"
  | some content =>
    match String.fromUTF8? content with
    | some text => read library text
    | none => unreadable path "stream did not contain valid UTF-8"

def write (policy : RetryPolicy) : Except Failure String :=
  match library.write policy.fields with
  | .ok text => .ok text
  | .error reason => .error (.breach (.policyUnwritable reason))

end

def toText : RetryPolicy → Except Failure String :=
  write .standard

end TransactionalMemory.RetryPolicy
