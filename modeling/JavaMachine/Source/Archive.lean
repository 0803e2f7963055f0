/-! # Zip archives

The directory of a zip archive and its entries. Only entries that are stored without compression
and without encryption can be read. -/

namespace JavaMachine

/-- An entry as the directory of an archive lists it. -/
structure ArchiveEntry where
  name : String
  flags : Nat
  method : Nat
  checksum : UInt32
  size : Nat
  offset : Nat
  deriving DecidableEq, Inhabited

/-- An archive: its bytes and its directory. -/
structure Archive where
  bytes : List UInt8
  entries : List ArchiveEntry
  deriving DecidableEq, Inhabited

namespace Archive

/-- The little-endian number that bytes spell. -/
def number (bytes : List UInt8) : Nat :=
  bytes.foldr (fun byte value => byte.toNat + 256 * value) 0

/-- The number of a given width at an offset. -/
def numberAt (bytes : List UInt8) (offset width : Nat) : Nat :=
  number ((bytes.drop offset).take width)

/-- A marker, the two letters of which are followed by two numbers. -/
def marker (first second : UInt8) : List UInt8 :=
  [0x50, 0x4b, first, second]

/-- The characters that the bytes from 128 on stand for in code page 437. -/
def codePage437 : String :=
  "ÇüéâäàåçêëèïîìÄÅÉæÆôöòûùÿÖÜ¢£¥₧ƒáíóúñÑªº¿⌐¬½¼¡«»░▒▓│┤╡╢╖╕╣║╗╝╜╛┐"
    ++ "└┴┬├─┼╞╟╚╔╩╦╠═╬╧╨╤╥╙╘╒╓╫╪┘┌█▄▌▐▀αßΓπΣσµτΦΘΩδ∞φε∩≡±≥≤⌠⌡÷≈°∙·√ⁿ²■\u00a0"

/-- The name that bytes spell: UTF-8 if the entry says so, code page 437 otherwise. -/
def nameOf (isUtf8 : Bool) (bytes : List UInt8) : String :=
  if isUtf8 then (String.fromUTF8? ⟨bytes.toArray⟩).getD ""
  else
    let table := codePage437.toList.toArray
    String.ofList (bytes.map fun byte =>
      if byte < 0x80 then Char.ofNat byte.toNat else table.getD (byte.toNat - 0x80) '?')

/-- Reads so many entries of a directory. -/
def readEntries (shift : Nat) : Nat → List UInt8 → Option (List ArchiveEntry)
  | 0, _ => some []
  | count + 1, bytes =>
    if !(marker 1 2).isPrefixOf bytes || (bytes.take 46).length < 46 then none
    else
      let nameSize := numberAt bytes 28 2
      let size := 46 + nameSize + numberAt bytes 30 2 + numberAt bytes 32 2
      if (bytes.take size).length < size then none
      else
        let flags := numberAt bytes 8 2
        let entry : ArchiveEntry := {
          name := nameOf (flags.testBit 11) ((bytes.drop 46).take nameSize)
          flags
          method := numberAt bytes 10 2
          checksum := UInt32.ofNat (numberAt bytes 16 4)
          size := numberAt bytes 20 4
          offset := numberAt bytes 42 4 + shift }
        (readEntries shift count (bytes.drop size)).map (entry :: ·)

/-- The directory that an end record at a position describes. What precedes the archive in the file
shifts all offsets. -/
def directoryAt (bytes : List UInt8) (position : Nat) (record : List UInt8) :
    Option (List ArchiveEntry) :=
  let length := 22 + numberAt record 20 2
  if (record.take 22).length < 22 || (record.take length).length < length then none
  else if numberAt record 4 2 ≠ numberAt record 6 2 then none
  else
    let count := numberAt record 8 2
    let size := numberAt record 12 4
    let offset := numberAt record 16 4
    if count = 0 then some []
    else if offset + size > position then none
    else
      let start := position - size
      if (marker 1 2).isPrefixOf (bytes.drop start) then
        readEntries (start - offset) count (bytes.drop start)
      else readEntries 0 count (bytes.drop offset)

/-- The directory of the last end record that describes one. -/
def lastDirectory (bytes : List UInt8) :
    (position : Nat) → (rest : List UInt8) → Option (List ArchiveEntry) →
      Option (List ArchiveEntry)
  | _, [], found => found
  | position, byte :: rest, found =>
    let found :=
      if (marker 5 6).isPrefixOf (byte :: rest) then
        directoryAt bytes position (byte :: rest) <|> found
      else found
    lastDirectory bytes (position + 1) rest found

/-- The archive that a file is. -/
def ofBytes? (bytes : List UInt8) : Option Archive :=
  (lastDirectory bytes 0 bytes none).map (⟨bytes, ·⟩)

/-- One bit of the checksum. -/
def checksumBit (value : UInt32) : UInt32 :=
  if value &&& 1 = 1 then (value >>> 1) ^^^ 0xedb88320 else value >>> 1

/-- One byte of the checksum. -/
def checksumByte (value : UInt32) (byte : UInt8) : UInt32 :=
  (List.range 8).foldl (fun value _ => checksumBit value) (value ^^^ byte.toUInt32)

/-- The cyclic redundancy check of 32 bits. -/
def checksum (bytes : List UInt8) : UInt32 :=
  bytes.foldl checksumByte 0xffffffff ^^^ 0xffffffff

/-- The content of an entry; `none` if it cannot be read. -/
def content? (archive : Archive) (entry : ArchiveEntry) : Option (List UInt8) :=
  let record := archive.bytes.drop entry.offset
  if !(marker 3 4).isPrefixOf record || (record.take 30).length < 30 then none
  else if entry.flags % 2 = 1 || entry.method ≠ 0 then none
  else
    let start := 30 + numberAt record 26 2 + numberAt record 28 2
    let content := (record.drop start).take entry.size
    if checksum content = entry.checksum then some content else none

/-- The last entry with a name. -/
def entry? (archive : Archive) (name : String) : Option ArchiveEntry :=
  archive.entries.reverse.find? (·.name == name)

end Archive

end JavaMachine
