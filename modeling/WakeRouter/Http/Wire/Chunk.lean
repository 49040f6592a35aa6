import WakeRouter.Http.Wire.Head

/-!
# Bodies in chunks

A body of unknown length is sent as chunks of known lengths, each behind a line with its
size in hexadecimal digits.  A chunk of size zero is the last one; header lines may follow
it, up to an empty line.  Every line ends in CR LF here.
-/

namespace WakeRouter.Http.Wire

/-- A line without its end, and what follows, if CR LF is the end. -/
def takeStrictLine? (s : Bytes) : Option (Bytes × Bytes) :=
  match s.dropWhile (· != cr) with
  | 13 :: 10 :: rest => some (s.takeWhile (· != cr), rest)
  | _ => none

def isHexByte (b : UInt8) : Bool :=
  (Text.hexValue? (Char.ofNat b.toNat)).isSome

/-- The size of a chunk and the length of its extension: hexadecimal digits, blanks, and
perhaps a semicolon with the extension behind it, which is ignored. -/
def chunkSize? (line : Bytes) : Option (Nat × Nat) :=
  let digits := line.takeWhile isHexByte
  let size := digits.foldl (fun n b => 16 * n + (Text.hexValue? (Char.ofNat b.toNat)).getD 0) 0
  if digits.isEmpty || size ≥ Nat.pow 2 64 then none
  else
    match (line.dropWhile isHexByte).dropWhile Header.isPadding with
    | [] => some (size, 0)
    | 0x3b :: extension => if extension.contains lf then none else some (size, extension.length)
    | _ => none

/-- All extensions together are shorter than this. -/
def maxExtensions : Nat := 16384

/-- There are fewer lines than this behind the last chunk. -/
def maxTrailers : Nat := 100

/-- The lines behind the last chunk are shorter than this together. -/
def maxTrailerLength : Nat := 16384

/-- Fewer than `room` lines up to an empty one. -/
def trailerLines? : (room : Nat) → Bytes → Option (List Bytes)
  | 0, _ => none
  | room + 1, s => do
    let (line, rest) ← takeStrictLine? s
    if line.isEmpty then some [] else some (line :: (← trailerLines? room rest))

/-- Whether what follows the last chunk is well-formed: nothing, or header lines. -/
def isTrailer (s : Bytes) : Bool :=
  match trailerLines? maxTrailers s with
  | none => false
  | some [] => true
  | some lines =>
    let block := lines.flatMap fun line => line ++ [cr, lf]
    block.length < maxTrailerLength && (headers lines.length (block ++ [cr, lf])).toOption.isSome

/-- The data of the chunks, and whether the last one came; `extensions` counts the bytes of
extensions so far. -/
def chunks : (fuel : Nat) → (extensions : Nat) → Bytes → List Bytes × Bool
  | 0, _, _ => ([], false)
  | fuel + 1, extensions, s =>
    match takeStrictLine? s with
    | none => ([], false)
    | some (line, rest) =>
      match chunkSize? line with
      | none => ([], false)
      | some (size, extension) =>
        if extensions + extension ≥ maxExtensions then ([], false)
        else if size = 0 then ([], isTrailer rest)
        else
          let data := rest.take size
          match rest.drop size with
          | 13 :: 10 :: rest =>
            let (more, complete) := chunks fuel (extensions + extension) rest
            (data :: more, complete)
          | _ => ([data], false)

/-- The body that comes in chunks. -/
def chunkedBody (s : Bytes) : Body :=
  let (parts, complete) := chunks (s.length + 1) 0 s
  ⟨parts, false, complete⟩

/-- The line in front of a chunk. -/
def sizeLine (n : Nat) : Bytes :=
  Text.toUtf8 ((Text.writeHex n).map Char.toUpper) ++ [cr, lf]

/-- A body as it is sent in chunks: one for each part, and an empty one at its end. -/
def inChunks (b : Body) : Bytes :=
  let parts := b.parts.filter (!·.isEmpty)
  (parts.flatMap fun part => sizeLine part.length ++ part ++ [cr, lf]) ++
    if b.complete then sizeLine 0 ++ [cr, lf] else []

end WakeRouter.Http.Wire
