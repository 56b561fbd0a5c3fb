import LuaSkills.ProcessOutput.Encoding

/-!
# The encodings as decoders that go character by character

UTF-8, Latin-1 and Base64 decode step by step from any first byte on. The converters outside the program
are documented to do so too, with two exceptions: `encoding_rs` looks for a byte order mark first, and
the Windows converter takes a length of 32 bits.
-/

namespace LuaSkills.ProcessOutput

open List

variable {host : TextHost} {bytes : List UInt8} {C : Converters}

def latin1 : StepDecoder UInt8 Char where
  step b _ := ([TextHost.latin1Char b], 0)
  fits _ _ := Nat.zero_le _

theorem decode_latin1 (bytes : List UInt8) : latin1.decode bytes = bytes.map TextHost.latin1Char := by
  induction bytes with
  | nil => rfl
  | cons b bytes ih =>
    rw [StepDecoder.decode_cons, map_cons, ← ih]
    rfl

theorem lookahead_latin1 : latin1.Lookahead 0 := fun _ _ _ _ => rfl

theorem grouped_latin1 : latin1.Grouped 1 := by
  intro b rest
  change 0 + 1 = min 1 (rest.length + 1)
  omega

theorem sized_latin1 : latin1.Sized fun _ => 1 := fun b _ => ⟨TextHost.latin1Char b, rfl, Nat.le_refl 1⟩

theorem lookahead_base64 : host.base64Groups.Lookahead 2 := by
  intro b rest extra hlen
  refine Prod.ext (congrArg (host.base64Group b) (take_append_of_le_length hlen)) ?_
  change min 2 (rest ++ extra).length = min 2 rest.length
  rw [length_append]
  omega

theorem grouped_base64 : host.base64Groups.Grouped 3 := by
  intro b rest
  change min 2 rest.length + 1 = min 3 (rest.length + 1)
  omega

theorem width_base64 (b : UInt8) (rest : List UInt8) : (host.base64Groups.step b rest).1.length = 4 :=
  host.length_base64Group b _

/-- The bytes begin with a byte order mark. -/
def HasBom (bytes : List UInt8) : Prop :=
  [0xEF, 0xBB, 0xBF] <+: bytes ∨ [0xFF, 0xFE] <+: bytes ∨ [0xFE, 0xFF] <+: bytes

instance : Decidable (HasBom bytes) := inferInstanceAs (Decidable (_ ∨ _ ∨ _))

/-- A converter that goes character by character, unless there is a byte order mark. -/
structure EncodingRs.Sequential (encoding : EncodingRs) (D : StepDecoder UInt8 Char) : Prop where
  lookahead : D.Lookahead 3
  decode : ∀ bytes, ¬ HasBom bytes → (encoding.decode bytes).1.toList = D.decode bytes

/-- A code page that goes character by character. Strict conversion agrees with the other or fails. -/
structure CodePage.Sequential (codePage : CodePage) (D : StepDecoder UInt8 Char) : Prop where
  lookahead : D.Lookahead 3
  writes : ∀ b rest, (D.step b rest).1 ≠ []
  toWide : ∀ bytes, bytes.length < 2 ^ 31 → codePage.toWide false bytes = Utf16.encode (D.decode bytes)
  strict : ∀ bytes, codePage.toWide true bytes = [] ∨ codePage.toWide true bytes = codePage.toWide false bytes

/-- The steps of the converters outside the program. -/
structure Converters where
  gbk : StepDecoder UInt8 Char
  gb18030 : StepDecoder UInt8 Char
  ansi : StepDecoder UInt8 Char
  oem : StepDecoder UInt8 Char

structure Converters.Documented (C : Converters) (host : TextHost) : Prop where
  gbk : host.gbk.Sequential C.gbk
  gb18030 : host.gb18030.Sequential C.gb18030
  codePages : ∀ {ansi oem}, host.codePages = some (ansi, oem) →
    ansi.Sequential C.ansi ∧ oem.Sequential C.oem

def Converters.decoder (C : Converters) (host : TextHost) : RuntimeTextEncoding → StepDecoder UInt8 Char
  | .utf8 => Utf8.lossy
  | .system => if host.codePages.isSome then C.ansi else Utf8.lossy
  | .oem => if host.codePages.isSome then C.oem else Utf8.lossy
  | .gbk => C.gbk
  | .gb18030 => C.gb18030
  | .latin1 => latin1
  | .base64 => host.base64Groups

/-- The encoding is UTF-8, by its own name or as the system's. -/
def IsUtf8 (host : TextHost) : RuntimeTextEncoding → Prop
  | .utf8 => True
  | .system | .oem => host.codePages = none
  | _ => False

/-- The bytes are decoded character by character from the first on. -/
def Regular (host : TextHost) (bytes : List UInt8) : RuntimeTextEncoding → Prop
  | .gbk | .gb18030 => ¬ HasBom bytes
  | .system | .oem => host.codePages.isSome = true → bytes.length < 2 ^ 31
  | _ => True

theorem IsUtf8.decoder (h : IsUtf8 host encoding) : C.decoder host encoding = Utf8.lossy := by
  cases encoding with
  | utf8 => rfl
  | system | oem =>
    have hnone : host.codePages = none := h
    rw [Converters.decoder, hnone]
    rfl
  | gbk | gb18030 | latin1 | base64 => exact h.elim

theorem decodeUtf8_text (bytes : List UInt8) :
    (host.decodeUtf8 bytes).text.toList = Utf8.lossy.decode bytes := by
  unfold TextHost.decodeUtf8
  split
  · next text h => rw [← Utf8.decode?_eq_some h, Utf8.decode_encode]
  · exact String.toList_ofList

theorem CodePage.Sequential.text {codePage : CodePage} (h : codePage.Sequential D)
    (hlen : bytes.length < 2 ^ 31) :
    (host.decodeWindowsCodePage codePage label bytes).text.toList = D.decode bytes := by
  cases bytes with
  | nil => rfl
  | cons b rest =>
    have hinput : (b :: rest).take (2 ^ 31 - 1) = b :: rest :=
      take_of_length_le (Nat.le_sub_one_of_lt hlen)
    have hne : D.decode (b :: rest) ≠ [] := by
      rw [D.decode_cons]
      exact append_ne_nil_of_left_ne_nil (h.writes b rest) _
    have hwide : codePage.toWide false (b :: rest) ≠ [] := by
      rw [h.toWide _ hlen]
      exact mt Utf16.encode_eq_nil.1 hne
    have htext : Utf16.decodeLossy (codePage.toWide false (b :: rest)) = D.decode (b :: rest) := by
      rw [h.toWide _ hlen, Utf16.decodeLossy_encode]
    unfold TextHost.decodeWindowsCodePage
    rw [if_neg (cons_ne_nil b rest), hinput]
    rcases h.strict (b :: rest) with hstrict | hstrict
    · simp only [hstrict, if_true, if_neg hwide, String.toList_ofList, htext]
    · simp only [hstrict, if_neg hwide, String.toList_ofList, htext]

theorem decodeRuntimeText_toList (hC : C.Documented host) (h : Regular host bytes encoding) :
    (host.decodeRuntimeText bytes encoding).text.toList = (C.decoder host encoding).decode bytes := by
  cases encoding with
  | utf8 => exact decodeUtf8_text bytes
  | system =>
    simp only [TextHost.decodeRuntimeText, TextHost.decodeSystemText, Converters.decoder]
    cases hpages : host.codePages with
    | none => exact decodeUtf8_text bytes
    | some pages => exact (hC.codePages hpages).1.text (h (by rw [hpages]; rfl))
  | oem =>
    simp only [TextHost.decodeRuntimeText, TextHost.decodeOemText, Converters.decoder]
    cases hpages : host.codePages with
    | none => exact decodeUtf8_text bytes
    | some pages => exact (hC.codePages hpages).2.text (h (by rw [hpages]; rfl))
  | gbk => exact hC.gbk.decode bytes h
  | gb18030 => exact hC.gb18030.decode bytes h
  | latin1 => exact String.toList_ofList.trans (decode_latin1 bytes).symm
  | base64 => exact String.toList_ofList

theorem Converters.Documented.lookahead (hC : C.Documented host)
    (encoding : RuntimeTextEncoding) : (C.decoder host encoding).Lookahead 3 := by
  cases encoding with
  | utf8 => exact Utf8.lookahead_lossy
  | system =>
    rw [Converters.decoder]
    cases hpages : host.codePages with
    | none => exact Utf8.lookahead_lossy
    | some pages => exact (hC.codePages hpages).1.lookahead
  | oem =>
    rw [Converters.decoder]
    cases hpages : host.codePages with
    | none => exact Utf8.lookahead_lossy
    | some pages => exact (hC.codePages hpages).2.lookahead
  | gbk => exact hC.gbk.lookahead
  | gb18030 => exact hC.gb18030.lookahead
  | latin1 => exact lookahead_latin1.mono (by decide)
  | base64 => exact lookahead_base64.mono (by decide)

/-! ## Nothing is lost -/

theorem IsUtf8.runtimeText (h : IsUtf8 host encoding) (bytes : List UInt8) :
    host.decodeRuntimeText bytes encoding = host.decodeUtf8 bytes ∧
    ∀ text, host.encodeRuntimeText text encoding = .ok (Utf8.encode text.toList) := by
  cases encoding with
  | utf8 => exact ⟨rfl, fun _ => rfl⟩
  | system | oem =>
    have hnone : host.codePages = none := h
    simp only [TextHost.decodeRuntimeText, TextHost.decodeSystemText, TextHost.decodeOemText,
      TextHost.encodeRuntimeText, TextHost.encodeSystemText, TextHost.encodeOemText, hnone, implies_true, and_self]
  | gbk | gb18030 | latin1 | base64 => exact h.elim

theorem base64_of_lossy (h : (host.decodeRuntimeText bytes encoding).lossy = true) :
    (host.decodeRuntimeText bytes encoding).base64 = some (host.base64 bytes) := by
  have hutf8 : (host.decodeUtf8 bytes).lossy = true → (host.decodeUtf8 bytes).base64 = some (host.base64 bytes) := by
    unfold TextHost.decodeUtf8
    split <;> simp
  have hpage (page : CodePage) (label : String) : (host.decodeWindowsCodePage page label bytes).lossy = true →
      (host.decodeWindowsCodePage page label bytes).base64 = some (host.base64 bytes) := by
    unfold TextHost.decodeWindowsCodePage
    repeat' first | split | dsimp only
    all_goals simp_all
  cases encoding with
  | utf8 => exact hutf8 h
  | system | oem =>
    simp only [TextHost.decodeRuntimeText, TextHost.decodeSystemText, TextHost.decodeOemText] at h ⊢
    split at h
    · exact hpage _ _ h
    · exact hutf8 h
  | gbk | gb18030 => exact if_pos h
  | latin1 => cases h
  | base64 => rfl

theorem toNat_latin1Char (b : UInt8) : (TextHost.latin1Char b).toNat = b.toNat :=
  Utf8.toNat_ofNat (.inl (b.toNat_lt.trans (by decide)))

/-- Where bytes cannot be shown as text, their Base64 comes along; where they can, UTF-8, Latin-1 and
Base64 text is encoded to the bytes it came from, and decoded to the text that they came from. -/
theorem decodeRuntimeText_recoverable (hbase64 : host.base64Decode (host.base64 bytes) = .ok bytes)
    (encoding : RuntimeTextEncoding) :
    let decoded := host.decodeRuntimeText bytes encoding
    (decoded.lossy = true → ∃ payload, decoded.base64 = some payload ∧
      host.encodeRuntimeText payload .base64 = .ok bytes) ∧
    (decoded.lossy = false → IsUtf8 host encoding ∨ encoding = .latin1 ∨ encoding = .base64 →
      host.encodeRuntimeText decoded.text encoding = .ok bytes) ∧
    ∀ text, host.encodeRuntimeText text encoding = .ok bytes →
      IsUtf8 host encoding ∨ encoding = .latin1 ∧ (∀ c ∈ text.toList, c.toNat ≤ 0xff) →
      decoded.text = text ∧ decoded.lossy = false := by
  have hpayload : host.encodeRuntimeText (host.base64 bytes) .base64 = .ok bytes := by
    rw [TextHost.encodeRuntimeText, hbase64]
    rfl
  refine ⟨fun h => ⟨_, base64_of_lossy h, hpayload⟩, fun h hexact => ?_, fun text h hexact => ?_⟩
  · rcases hexact with hutf8 | rfl | rfl
    · rw [(hutf8.runtimeText bytes).1] at h ⊢
      rw [(hutf8.runtimeText bytes).2]
      unfold TextHost.decodeUtf8 at h ⊢
      split at h
      · next text htext => exact congrArg _ (Utf8.decode?_eq_some htext)
      · cases h
    · have hbyte (b : UInt8) : (if (TextHost.latin1Char b).toNat ≤ 0xff then UInt8.ofNat (TextHost.latin1Char b).toNat
          else Utf8.byte '?') = b := by
        rw [toNat_latin1Char, if_pos (Nat.le_of_lt_succ b.toNat_lt), UInt8.ofNat_toNat]
      rw [TextHost.decodeRuntimeText, TextHost.decodeLatin1, TextHost.encodeRuntimeText, TextHost.encodeLatin1,
        String.toList_ofList, map_map]
      exact congrArg _ ((map_congr_left fun b _ => hbyte b).trans (map_id' _))
    · exact hpayload
  · rcases hexact with hutf8 | ⟨rfl, hchars⟩
    · rw [(hutf8.runtimeText bytes).2] at h
      cases h
      rw [(hutf8.runtimeText _).1, TextHost.decodeUtf8, Utf8.decode?_encode, String.ofList_toList]
      exact ⟨rfl, rfl⟩
    · cases h
      have hchar : ∀ c ∈ text.toList, TextHost.latin1Char
          (if c.toNat ≤ 0xff then UInt8.ofNat c.toNat else Utf8.byte '?') = c := fun c hc => by
        rw [if_pos (hchars c hc), TextHost.latin1Char, UInt8.toNat_ofNat_of_lt' (Nat.lt_succ_of_le (hchars c hc)),
          Char.ofNat_toNat]
      refine ⟨?_, rfl⟩
      rw [TextHost.decodeRuntimeText, TextHost.decodeLatin1, TextHost.encodeLatin1, map_map]
      exact (congrArg String.ofList ((map_congr_left hchar).trans (map_id' _))).trans String.ofList_toList

def byteHost : TextHost where
  base64Group _ _ := ['/', 'w', '=', '=']
  length_base64Group _ _ := rfl
  base64Decode text := if text = "/w==" then .ok [0xFF] else .error "invalid"
  gbk := ⟨fun _ => ("", true), fun _ => ([], true)⟩
  gb18030 := ⟨fun _ => ("", true), fun _ => ([], true)⟩
  codePages := none

theorem byteHost_recovers : ∃ payload, (byteHost.decodeRuntimeText [0xFF] .utf8).base64 = some payload ∧
    byteHost.encodeRuntimeText payload .base64 = .ok [0xFF] :=
  (decodeRuntimeText_recoverable (by decide +kernel) .utf8).1 (by decide +kernel)

end LuaSkills.ProcessOutput
