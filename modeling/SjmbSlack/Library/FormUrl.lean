import Mathlib.Data.List.Basic
import Mathlib.Algebra.BigOperators.Group.List.Basic
import Mathlib.Algebra.Ring.Nat

/-! The `application/x-www-form-urlencoded` format: pairs of texts as the query of a
URL, written in UTF-8 with three characters for most bytes. -/
namespace SjmbSlack.FormUrl

def unchanged (byte : UInt8) : Bool :=
  byte = 42 || byte = 45 || byte = 46 || byte = 95 || (48 ≤ byte && byte ≤ 57) ||
    (65 ≤ byte && byte ≤ 90) || (97 ≤ byte && byte ≤ 122)

def hexDigit (n : Nat) : Char := if n < 10 then Char.ofNat (48 + n) else Char.ofNat (55 + n)

def hexValue (ch : Char) : Option Nat :=
  if 48 ≤ ch.toNat ∧ ch.toNat ≤ 57 then some (ch.toNat - 48)
  else if 65 ≤ ch.toNat ∧ ch.toNat ≤ 70 then some (ch.toNat - 55)
  else if 97 ≤ ch.toNat ∧ ch.toNat ≤ 102 then some (ch.toNat - 87)
  else none

def encodeByte (byte : UInt8) : List Char :=
  if unchanged byte then [Char.ofNat byte.toNat]
  else if byte = 32 then ['+']
  else ['%', hexDigit (byte.toNat / 16), hexDigit (byte.toNat % 16)]

def encode (bytes : List UInt8) : List Char := bytes.flatMap encodeByte

/-- The bytes of an encoded text; a mark that begins no byte stands for itself. -/
def decode : List Char → List UInt8
  | [] => []
  | '%' :: high :: low :: rest =>
      match hexValue high, hexValue low with
      | some h, some l => UInt8.ofNat (h * 16 + l) :: decode rest
      | _, _ => 37 :: decode (high :: low :: rest)
  | '+' :: rest => 32 :: decode rest
  | ch :: rest => UInt8.ofNat ch.toNat :: decode rest

def cost (byte : UInt8) : Nat := if unchanged byte || byte = 32 then 1 else 3

def utf8 (text : List Char) : List UInt8 := text.flatMap String.utf8EncodeChar

def ofUtf8 (bytes : List UInt8) : Option (List Char) :=
  bytes.toByteArray.utf8Decode?.map Array.toList

def encodePair (pair : List Char × List Char) : List Char :=
  encode (utf8 pair.1) ++ '=' :: encode (utf8 pair.2)

def serialize (pairs : List (List Char × List Char)) : List Char :=
  ['&'].intercalate (pairs.map encodePair)

def parsePair (text : List Char) : Option (List Char × List Char) := do
  let name ← ofUtf8 (decode (text.takeWhile (· ≠ '=')))
  let value ← ofUtf8 (decode ((text.dropWhile (· ≠ '=')).drop 1))
  some (name, value)

def parse (text : List Char) : List (List Char × List Char) :=
  ((text.splitOn '&').filter (· ≠ [])).filterMap parsePair

def appendPair (query : List Char) (pair : List Char × List Char) : List Char :=
  if query = [] then encodePair pair else query ++ '&' :: encodePair pair

theorem decode_unchanged :
    ∀ byte : Fin 256, unchanged (UInt8.ofNat byte) = true → Char.ofNat byte ≠ '%' ∧
      Char.ofNat byte ≠ '+' ∧ UInt8.ofNat (Char.ofNat byte).toNat = UInt8.ofNat byte := by
  decide +kernel

theorem hexValue_hexDigit : ∀ n : Fin 16, hexValue (hexDigit n) = some n.val := by
  decide

theorem unchanged_plain : ∀ byte : Fin 256, unchanged (UInt8.ofNat byte) = true →
    (Char.ofNat byte).toNat ≤ 127 ∧ Char.ofNat byte ≠ '&' ∧ Char.ofNat byte ≠ '=' := by
  decide +kernel

theorem hexDigit_plain : ∀ n : Fin 16,
    (hexDigit n).toNat ≤ 127 ∧ hexDigit n ≠ '&' ∧ hexDigit n ≠ '=' := by
  decide

theorem encodeByte_plain {byte : UInt8} {ch : Char} (h : ch ∈ encodeByte byte) :
    ch.toNat ≤ 127 ∧ ch ≠ '&' ∧ ch ≠ '=' := by
  have hbyte : UInt8.ofNat byte.toNat = byte := UInt8.ofNat_toNat
  have hlt := byte.toNat_lt
  unfold encodeByte at h
  split at h
  · rename_i hunchanged
    rw [List.mem_singleton.mp h]
    exact unchanged_plain ⟨byte.toNat, hlt⟩ (by rw [hbyte]; exact hunchanged)
  · split at h
    · rw [List.mem_singleton.mp h]
      decide
    · simp only [List.mem_cons, List.not_mem_nil, or_false] at h
      rcases h with rfl | rfl | rfl
      · decide
      · exact hexDigit_plain ⟨byte.toNat / 16, by omega⟩
      · exact hexDigit_plain ⟨byte.toNat % 16, by omega⟩

theorem decode_encodeByte (byte : UInt8) (rest : List Char) :
    decode (encodeByte byte ++ rest) = byte :: decode rest := by
  have hbyte : UInt8.ofNat byte.toNat = byte := UInt8.ofNat_toNat
  unfold encodeByte
  split
  · rename_i hunchanged
    have hplain := decode_unchanged ⟨byte.toNat, byte.toNat_lt⟩ (by rw [hbyte]; exact hunchanged)
    rw [List.singleton_append, decode, hplain.2.2, hbyte]
    · exact fun _ _ _ heq _ => hplain.1 heq
    · exact fun heq => absurd heq hplain.2.1
  · split
    · rename_i hspace
      rw [hspace]
      rfl
    · have hlt := byte.toNat_lt
      have hhigh := hexValue_hexDigit ⟨byte.toNat / 16, by omega⟩
      have hlow := hexValue_hexDigit ⟨byte.toNat % 16, by omega⟩
      dsimp only at hhigh hlow
      rw [List.cons_append, List.cons_append, List.singleton_append, decode, hhigh, hlow]
      dsimp only
      rw [Nat.div_add_mod', hbyte]

@[simp] theorem decode_encode (bytes : List UInt8) : decode (encode bytes) = bytes := by
  induction bytes with
  | nil => rfl
  | cons byte bytes ih =>
      rw [encode, List.flatMap_cons, decode_encodeByte]
      congr 1

theorem encode_plain {bytes : List UInt8} {ch : Char} (h : ch ∈ encode bytes) :
    ch.toNat ≤ 127 ∧ ch ≠ '&' ∧ ch ≠ '=' := by
  obtain ⟨byte, -, hmem⟩ := List.mem_flatMap.mp h
  exact encodeByte_plain hmem

theorem length_encode (bytes : List UInt8) : (encode bytes).length = (bytes.map cost).sum := by
  rw [encode, List.length_flatMap]
  congr 2
  funext byte
  unfold encodeByte cost
  split
  · rename_i hunchanged
    simp [hunchanged]
  · split <;> simp_all

@[simp] theorem ofUtf8_utf8 (text : List Char) : ofUtf8 (utf8 text) = some text := by
  have hbytes : (utf8 text).toByteArray = text.utf8Encode := rfl
  rw [ofUtf8, hbytes, List.utf8Decode?_utf8Encode]
  rfl

theorem parsePair_encodePair (pair : List Char × List Char) :
    parsePair (encodePair pair) = some pair := by
  have hname : ∀ ch ∈ encode (utf8 pair.1), decide (ch ≠ '=') = true := fun ch hmem =>
    decide_eq_true (encode_plain hmem).2.2
  have hstop : ('=' :: encode (utf8 pair.2)).takeWhile (· ≠ '=') = [] := by simp
  have hrest : ('=' :: encode (utf8 pair.2)).dropWhile (· ≠ '=') = '=' :: encode (utf8 pair.2) := by simp
  rw [parsePair, encodePair, List.takeWhile_append_of_pos hname, List.dropWhile_append_of_pos hname,
    hstop, hrest, List.append_nil, decode_encode, List.drop_one, List.tail_cons, decode_encode,
    ofUtf8_utf8, ofUtf8_utf8]
  rfl

theorem encodePair_ne_nil (pair : List Char × List Char) : encodePair pair ≠ [] :=
  List.append_ne_nil_of_right_ne_nil _ (List.cons_ne_nil _ _)

theorem separator_notMem_encodePair (pair : List Char × List Char) : '&' ∉ encodePair pair := by
  intro hmem
  rcases List.mem_append.mp hmem with hname | hvalue
  · exact (encode_plain hname).2.1 rfl
  · rcases List.mem_cons.mp hvalue with heq | hvalue
    · exact absurd heq (by decide)
    · exact (encode_plain hvalue).2.1 rfl

theorem parse_serialize (pairs : List (List Char × List Char)) : parse (serialize pairs) = pairs := by
  by_cases hnil : pairs = []
  · rw [hnil]
    rfl
  · have hsplit : (serialize pairs).splitOn '&' = pairs.map encodePair := by
      refine List.splitOn_intercalate '&' (fun text hmem => ?_) (by simpa using hnil)
      obtain ⟨pair, -, rfl⟩ := List.mem_map.mp hmem
      exact separator_notMem_encodePair pair
    have hfilter : (pairs.map encodePair).filter (· ≠ []) = pairs.map encodePair := by
      refine List.filter_eq_self.mpr fun text hmem => ?_
      obtain ⟨pair, -, rfl⟩ := List.mem_map.mp hmem
      exact decide_eq_true (encodePair_ne_nil pair)
    rw [parse, hsplit, hfilter, List.filterMap_map]
    have hread : parsePair ∘ encodePair = some := funext parsePair_encodePair
    rw [hread, List.filterMap_some]

theorem intercalate_concat (separator : Char) {texts : List (List Char)} (h : texts ≠ [])
    (last : List Char) :
    [separator].intercalate (texts ++ [last]) = [separator].intercalate texts ++ separator :: last := by
  induction texts with
  | nil => exact absurd rfl h
  | cons first texts ih =>
      by_cases hlast : texts = []
      · simp [hlast]
      · rw [List.cons_append, List.intercalate_cons_of_ne_nil (by simp), ih hlast,
          List.intercalate_cons_of_ne_nil hlast, List.append_assoc, List.append_assoc,
          List.append_assoc]

theorem serialize_ne_nil {pairs : List (List Char × List Char)} (h : pairs ≠ []) :
    serialize pairs ≠ [] := by
  intro hnil
  have hback := parse_serialize pairs
  rw [hnil] at hback
  exact h hback.symm

theorem appendPair_serialize (pairs : List (List Char × List Char)) (pair : List Char × List Char) :
    appendPair (serialize pairs) pair = serialize (pairs ++ [pair]) := by
  by_cases hnil : pairs = []
  · simp [hnil, appendPair, serialize]
  · rw [appendPair, if_neg (serialize_ne_nil hnil), serialize, serialize, List.map_append,
      List.map_singleton, intercalate_concat '&' (by simpa using hnil)]

end SjmbSlack.FormUrl
