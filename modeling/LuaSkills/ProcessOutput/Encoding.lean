import LuaSkills.Data.Fallible
import LuaSkills.Data.Utf16
import LuaSkills.Data.Utf8Lossy

/-!
# Text encodings of process output

`decode_runtime_text` and `encode_runtime_text`. The converters that are not part of the program are
parameters (`TextHost`): the tables of GBK and GB18030, the code pages of a Windows host, and the
letters of Base64, of which only the grouping is fixed.
-/

namespace LuaSkills.ProcessOutput

inductive RuntimeTextEncoding where
  | utf8 | system | oem | gbk | gb18030 | latin1 | base64
deriving DecidableEq, Repr

structure DecodedRuntimeText where
  text : String
  encoding : String
  lossy : Bool
  base64 : Option String
deriving DecidableEq

/-- A converter of `encoding_rs`; both directions tell whether there were errors. -/
structure EncodingRs where
  decode : List UInt8 → String × Bool
  encode : String → List UInt8 × Bool

/-- A Windows code page: `MultiByteToWideChar`, strict or not, and `WideCharToMultiByte`, which tells
whether it used a default character. Nothing is converted where they fail. -/
structure CodePage where
  number : ℕ
  toWide : Bool → List UInt8 → List UInt16
  fromWide : List UInt16 → List UInt8 × Bool

structure TextHost where
  /-- The four letters for a byte and up to two behind it. -/
  base64Group : UInt8 → List UInt8 → List Char
  length_base64Group : ∀ b rest, (base64Group b rest).length = 4
  base64Decode : String → Except String (List UInt8)
  gbk : EncodingRs
  gb18030 : EncodingRs
  /-- The ANSI and the OEM code page, on Windows. -/
  codePages : Option (CodePage × CodePage)

namespace TextHost
variable (host : TextHost)

/-- Base64 goes by groups of three bytes. -/
def base64Groups : StepDecoder UInt8 Char where
  step b rest := (host.base64Group b (rest.take 2), min 2 rest.length)
  fits _ _ := Nat.min_le_right _ _

def base64 (bytes : List UInt8) : String := String.ofList (host.base64Groups.decode bytes)

/-! ## Decoding -/

def decodeUtf8 (bytes : List UInt8) : DecodedRuntimeText :=
  match Utf8.decode? bytes with
  | some text => ⟨text, "utf-8", false, none⟩
  | none => ⟨Utf8.fromUtf8Lossy bytes, "utf-8", true, some (host.base64 bytes)⟩

def decodeWithEncodingRs (encoding : EncodingRs) (actualLabel : String) (bytes : List UInt8) :
    DecodedRuntimeText :=
  let (text, hadErrors) := encoding.decode bytes
  ⟨text, actualLabel, hadErrors, if hadErrors then some (host.base64 bytes) else none⟩

/-- One byte is one character. -/
def latin1Char (b : UInt8) : Char := Char.ofNat b.toNat

def decodeLatin1 (bytes : List UInt8) : DecodedRuntimeText :=
  ⟨String.ofList (bytes.map latin1Char), "latin1", false, none⟩

def decodeAsBase64 (bytes : List UInt8) : DecodedRuntimeText :=
  ⟨host.base64 bytes, "base64", false, some (host.base64 bytes)⟩

/-- The converter takes a length of 32 bits. -/
def decodeWindowsCodePage (codePage : CodePage) (actualLabel : String) (bytes : List UInt8) :
    DecodedRuntimeText :=
  if bytes = [] then ⟨"", actualLabel, false, none⟩
  else
    let input := bytes.take (2 ^ 31 - 1)
    let strict := codePage.toWide true input
    let (wide, lossy) := if strict = [] then (codePage.toWide false input, true) else (strict, false)
    if wide = [] then ⟨Utf8.fromUtf8Lossy bytes, actualLabel, true, some (host.base64 bytes)⟩
    else
      ⟨String.ofList (Utf16.decodeLossy wide), actualLabel, lossy,
        if lossy then some (host.base64 bytes) else none⟩

def decodeSystemText (bytes : List UInt8) : DecodedRuntimeText :=
  match host.codePages with
  | some (ansi, _) => host.decodeWindowsCodePage ansi s!"windows-{ansi.number}" bytes
  | none => host.decodeUtf8 bytes

def decodeOemText (bytes : List UInt8) : DecodedRuntimeText :=
  match host.codePages with
  | some (_, oem) => host.decodeWindowsCodePage oem s!"windows-oem-{oem.number}" bytes
  | none => host.decodeUtf8 bytes

def decodeRuntimeText (bytes : List UInt8) : RuntimeTextEncoding → DecodedRuntimeText
  | .utf8 => host.decodeUtf8 bytes
  | .system => host.decodeSystemText bytes
  | .oem => host.decodeOemText bytes
  | .gbk => host.decodeWithEncodingRs host.gbk "gbk" bytes
  | .gb18030 => host.decodeWithEncodingRs host.gb18030 "gb18030" bytes
  | .latin1 => decodeLatin1 bytes
  | .base64 => host.decodeAsBase64 bytes

/-! ## Encoding -/

def encodeWithEncodingRs (encoding : EncodingRs) (actualLabel : String) (text : String) :
    Except String (List UInt8) :=
  let (bytes, hadErrors) := encoding.encode text
  if hadErrors then .error s!"{actualLabel} encode failed without replacement" else .ok bytes

def encodeLatin1 (text : String) : List UInt8 :=
  text.toList.map fun c => if c.toNat ≤ 0xff then UInt8.ofNat c.toNat else Utf8.byte '?'

def encodeWindowsCodePage (codePage : CodePage) (actualLabel : String) (text : String) :
    Except String (List UInt8) :=
  if text = "" then .ok []
  else do
    let (bytes, usedDefaultChar) := codePage.fromWide (Utf16.encode text.toList)
    refuseIf (bytes = []) s!"{actualLabel} encode failed"
    refuseIf (usedDefaultChar = true) s!"{actualLabel} encode required replacement"
    return bytes

def encodeSystemText (text : String) : Except String (List UInt8) :=
  match host.codePages with
  | some (ansi, _) => encodeWindowsCodePage ansi s!"windows-{ansi.number}" text
  | none => .ok (Utf8.encode text.toList)

def encodeOemText (text : String) : Except String (List UInt8) :=
  match host.codePages with
  | some (_, oem) => encodeWindowsCodePage oem s!"windows-oem-{oem.number}" text
  | none => .ok (Utf8.encode text.toList)

def encodeRuntimeText (text : String) : RuntimeTextEncoding → Except String (List UInt8)
  | .utf8 => .ok (Utf8.encode text.toList)
  | .system => host.encodeSystemText text
  | .oem => host.encodeOemText text
  | .gbk => encodeWithEncodingRs host.gbk "gbk" text
  | .gb18030 => encodeWithEncodingRs host.gb18030 "gb18030" text
  | .latin1 => .ok (encodeLatin1 text)
  | .base64 => (host.base64Decode text).mapError fun error => s!"base64 decode failed: {error}"

end TextHost

end LuaSkills.ProcessOutput
