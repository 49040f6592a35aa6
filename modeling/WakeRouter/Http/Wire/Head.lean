import WakeRouter.Http.Message

/-!
# Heads of messages

The head of a message is read line by line from bytes.  Its lines end in LF or in CR LF,
and an empty line ends it.
-/

namespace WakeRouter.Http.Wire

/-- Why what comes over a connection is not a message. -/
inductive Fault
  | malformed
  | tooManyHeaders
  | targetTooLong
  | bodyTooLong
deriving DecidableEq, Repr

def cr : UInt8 := 13

def lf : UInt8 := 10

/-- A line without its end, and what follows. -/
def takeLine? : Bytes → Option (Bytes × Bytes)
  | [] => none
  | b :: s =>
    if b = lf then some ([], s)
    else
      match takeLine? s with
      | none => none
      | some (line, rest) =>
        if b = cr ∧ s.head? = some lf then some ([], rest) else some (b :: line, rest)

/-- Empty lines in front of a message do not count. -/
def skipEmptyLines : Bytes → Bytes
  | 10 :: s => skipEmptyLines s
  | 13 :: 10 :: s => skipEmptyLines s
  | s => s

/-- A header line: a name, a colon at once, and a value. -/
def header? (line : Bytes) : Option Header := do
  let name := line.takeWhile (· != 0x3a)
  match line.dropWhile (· != 0x3a) with
  | [] => none
  | _ :: value => (Header.make? (String.ofList (← Text.ofUtf8? name)) value).map Header.trimmed

/-- Whether a line begins like a header line. -/
def beginsHeader (line : Bytes) : Bool :=
  line.head?.any fun b => Header.isTokenChar (Char.ofNat b.toNat)

/-- At most `room` header lines up to an empty line, and what follows. -/
def headers (room : Nat) (s : Bytes) : Except Fault (Headers × Bytes) :=
  match takeLine? s with
  | none => .error .malformed
  | some (line, rest) =>
    if line.isEmpty then .ok ([], rest)
    else
      match room with
      | 0 => .error (if beginsHeader line then .tooManyHeaders else .malformed)
      | room + 1 =>
        match header? line with
        | none => .error .malformed
        | some h => (headers room rest).map fun (hs, rest) => (h :: hs, rest)

/-- A head has no more header lines than this. -/
def maxHeaders : Nat := 100

/-- No body is said to be longer than this. -/
def maxBodyLength : Nat := Nat.pow 2 64 - 3

/-- Whether the last coding that the line lists is `chunked`. -/
def endsChunked (h : Header) : Bool :=
  match h.text? with
  | some text =>
    match (Text.pieces ',' text).getLast? with
    | some coding => (Text.trim coding).map Char.toLower == "chunked".toList
    | none => false
  | none => false

end WakeRouter.Http.Wire
