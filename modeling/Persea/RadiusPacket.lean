import Persea.BaseChunk
import Mathlib.Data.List.DropRight

/-! RADIUS access requests: the attributes of a request, their encoding with lengths of one byte, and the hiding of the
password, whose blocks are chained by a hash. Texts are given by their bytes. -/

namespace Persea.Radius

open Base Chunk List

abbrev Bytes := List UInt8

abbrev Block := Fin 16 → UInt8

structure RadiusAttribute where
  type : UInt8
  value : Bytes
deriving DecidableEq, Repr

namespace RadiusAttribute

/-- The length is cast to a byte. -/
def encode (a : RadiusAttribute) : Bytes := a.type :: UInt8.ofNat (2 + a.value.length) :: a.value

def wireLen (a : RadiusAttribute) : Nat := 2 + a.value.length

end RadiusAttribute

open RadiusAttribute

def parseAttributes : Bytes → List RadiusAttribute
  | type :: len :: data =>
    if len.toNat < 2 ∨ 2 + data.length < len.toNat then []
    else ⟨type, data.take (len.toNat - 2)⟩ :: parseAttributes (data.drop (len.toNat - 2))
  | _ => []
termination_by data => data.length
decreasing_by
  simp only [length_drop, length_cons]
  omega

section Pap

variable (md5 : Bytes → Block) (sharedSecret : Bytes)

def papKey (prev : Bytes) : Bytes := ofFn (md5 (sharedSecret ++ prev))

def papBlocks : Bytes → List Bytes → List Bytes
  | _, [] => []
  | prev, chunk :: chunks =>
    let block := chunk.zipWith (· ^^^ ·) (papKey md5 sharedSecret prev)
    block :: papBlocks block chunks

def padded (password : Bytes) : Bytes := password ++ replicate ((password.length + 15) / 16 * 16 - password.length) 0

def papEncryptPassword (password : Bytes) (requestAuth : Block) : Bytes :=
  (papBlocks md5 sharedSecret (ofFn requestAuth) (wholes 16 (padded password))).flatten

def plainBlocks : Bytes → List Bytes → List Bytes
  | _, [] => []
  | prev, block :: blocks => block.zipWith (· ^^^ ·) (papKey md5 sharedSecret prev) :: plainBlocks block blocks

/-- The decryption of RFC 2865: the blocks are unchained, and the padding is taken off. -/
def rfcDecrypt (encrypted : Bytes) (requestAuth : Block) : Bytes :=
  (plainBlocks md5 sharedSecret (ofFn requestAuth) (wholes 16 encrypted)).flatten.rdropWhile (· = 0)

end Pap

structure AccessRequest where
  id : UInt8
  (username password sharedSecret nasIdentifier : Bytes)
  nasIp : Option (Fin 4 → UInt8)
  state : Option Bytes

variable (md5 : Bytes → Block) (requestAuth : Block)

def AccessRequest.attributes (r : AccessRequest) : List RadiusAttribute :=
  ⟨1, r.username⟩ ::
    (if r.password = [] then [] else [⟨2, papEncryptPassword md5 r.sharedSecret r.password requestAuth⟩]) ++
    (r.nasIp.map fun ip => ⟨4, ofFn ip⟩).toList ++ [⟨5, [0, 0, 0, 0]⟩, ⟨32, r.nasIdentifier⟩] ++
    (r.state.map fun s => ⟨24, s⟩).toList

def buildAccessRequest (r : AccessRequest) : Bytes :=
  let attributes := r.attributes md5 requestAuth
  let totalLen := 20 + (attributes.map wireLen).sum
  [1, r.id, UInt8.ofNat (totalLen >>> 8), UInt8.ofNat (totalLen &&& 0xff)] ++ (ofFn requestAuth) ++
    attributes.flatMap encode

def lengthField (packet : Bytes) : Nat := 256 * (packet.getD 2 0).toNat + (packet.getD 3 0).toNat

variable {md5} {sharedSecret : Bytes}

theorem flatten_wholes (l : Bytes) : (wholes 16 l).flatten ++ remainder 16 l = l := by
  induction l using block_induction (by decide : 0 < 16) with
  | short l h => rw [wholes_of_lt h, remainder_of_lt h, flatten_nil, nil_append]
  | block b l hb ih =>
    rw [wholes_block_append (by decide) hb, remainder_block_append (by decide) hb, flatten_cons, append_assoc, ih]

theorem length_of_mem_wholes {l block : Bytes} (h : block ∈ wholes 16 l) : block.length = 16 := by
  induction l using block_induction (by decide : 0 < 16) with
  | short l hl =>
    rw [wholes_of_lt hl] at h
    cases h
  | block b l hb ih =>
    rw [wholes_block_append (by decide) hb] at h
    rcases mem_cons.mp h with rfl | h
    · exact hb
    · exact ih h

theorem wholes_flatten {blocks : List Bytes} (h : ∀ block ∈ blocks, block.length = 16) :
    wholes 16 blocks.flatten = blocks := by
  induction blocks with
  | nil => rfl
  | cons block blocks ih =>
    rw [forall_mem_cons] at h
    rw [flatten_cons, wholes_block_append (by decide) h.1, ih h.2]

theorem length_padded (password : Bytes) : (padded password).length = (password.length + 15) / 16 * 16 := by
  rw [padded, length_append, length_replicate]
  omega

theorem flatten_wholes_padded (password : Bytes) : (wholes 16 (padded password)).flatten = padded password := by
  have hrest : remainder 16 (padded password) = [] := by
    rw [remainder, length_padded, Nat.mul_div_cancel _ (by decide), Nat.mul_comm, ← length_padded, drop_length]
  have hwhole := flatten_wholes (padded password)
  rwa [hrest, append_nil] at hwhole

theorem zipWith_xor_xor {chunk key : Bytes} (h : chunk.length = key.length) :
    (chunk.zipWith (· ^^^ ·) key).zipWith (· ^^^ ·) key = chunk := by
  induction chunk generalizing key with
  | nil => rfl
  | cons b chunk ih =>
    cases key with
    | nil => cases h
    | cons k key =>
      rw [zipWith_cons_cons, zipWith_cons_cons, ih (Nat.succ.inj h), UInt8.xor_assoc, UInt8.xor_self, UInt8.xor_zero]

theorem length_papKey (prev : Bytes) : (papKey md5 sharedSecret prev).length = 16 := by rw [papKey, length_ofFn]

theorem papBlocks_spec {chunks : List Bytes} (h : ∀ chunk ∈ chunks, chunk.length = 16) (prev : Bytes) :
    (∀ block ∈ papBlocks md5 sharedSecret prev chunks, block.length = 16) ∧
      plainBlocks md5 sharedSecret prev (papBlocks md5 sharedSecret prev chunks) = chunks ∧
      (papBlocks md5 sharedSecret prev chunks).length = chunks.length := by
  induction chunks generalizing prev with
  | nil => exact ⟨nofun, rfl, rfl⟩
  | cons chunk chunks ih =>
    rw [forall_mem_cons] at h
    obtain ⟨hlength, hplain, hcount⟩ := ih h.2 (chunk.zipWith (· ^^^ ·) (papKey md5 sharedSecret prev))
    rw [papBlocks, forall_mem_cons, plainBlocks, hplain, length_cons, hcount, length_cons]
    refine ⟨⟨?_, hlength⟩, ?_, rfl⟩
    · rw [length_zipWith, h.1, length_papKey, Nat.min_self]
    · rw [zipWith_xor_xor (h.1.trans (length_papKey prev).symm)]

theorem length_papEncryptPassword (password : Bytes) (requestAuth : Block) :
    (papEncryptPassword md5 sharedSecret password requestAuth).length = (password.length + 15) / 16 * 16 := by
  have hblocks : ∀ block ∈ wholes 16 (padded password), block.length = 16 := fun _ => length_of_mem_wholes
  have hsum : ∀ blocks : List Bytes, (∀ block ∈ blocks, block.length = 16) → blocks.flatten.length = blocks.length * 16 :=
    fun blocks h => by rw [length_flatten, map_congr_left h, map_const', sum_replicate, smul_eq_mul]
  obtain ⟨hlength, -, hcount⟩ := @papBlocks_spec md5 sharedSecret _ hblocks (ofFn requestAuth)
  rw [papEncryptPassword, hsum _ hlength, hcount, ← hsum _ hblocks, flatten_wholes_padded, length_padded]

/-- **The hiding of the password can be undone**, whatever the hash, and fills whole blocks. -/
theorem rfcDecrypt_papEncryptPassword (md5 : Bytes → Block) (sharedSecret password : Bytes)
    (requestAuth : Block) (hnul : 0 ∉ password) :
    let encrypted := papEncryptPassword md5 sharedSecret password requestAuth
    rfcDecrypt md5 sharedSecret encrypted requestAuth = password ∧ 16 ∣ encrypted.length ∧
      password.length ≤ encrypted.length ∧ encrypted.length < password.length + 16 := by
  intro encrypted
  have hlength : encrypted.length = (password.length + 15) / 16 * 16 := length_papEncryptPassword password requestAuth
  refine ⟨?_, ⟨_, hlength.trans (Nat.mul_comm _ _)⟩, by omega, by omega⟩
  obtain ⟨hblocks, hplain, -⟩ :=
    @papBlocks_spec md5 sharedSecret _ (fun _ => length_of_mem_wholes (l := padded password)) (ofFn requestAuth)
  rw [rfcDecrypt, show encrypted = (papBlocks _ _ _ _).flatten from rfl, wholes_flatten hblocks, hplain,
    flatten_wholes_padded, padded, rdropWhile, reverse_append, reverse_replicate,
    dropWhile_append_of_pos (by simp), ← rdropWhile, rdropWhile_eq_self_iff]
  intro hne hzero
  exact hnul (of_decide_eq_true hzero ▸ getLast_mem hne)

theorem rfcDecrypt_papEncryptPassword_hello :
    rfcDecrypt (fun _ _ => 7) [1] (papEncryptPassword (fun _ _ => 7) [1] [104, 105]
      (fun _ => 9)) (fun _ => 9) = [104, 105] :=
  (rfcDecrypt_papEncryptPassword _ [1] [104, 105] _ (by decide)).1

theorem length_le_of_mem_parseAttributes {a : RadiusAttribute} {data : Bytes} (h : a ∈ parseAttributes data) :
    a.value.length ≤ 253 := by
  fun_induction parseAttributes data with
  | case1 => cases h
  | case2 type len data hlen ih =>
    rcases mem_cons.mp h with rfl | h
    · have hlt := len.toNat_lt
      rw [length_take]
      omega
    · exact ih h
  | case3 => cases h

theorem parseAttributes_encode {a : RadiusAttribute} (h : a.value.length ≤ 253) (data : Bytes) :
    parseAttributes (a.encode ++ data) = a :: parseAttributes data := by
  have hlen : (UInt8.ofNat (2 + a.value.length)).toNat = 2 + a.value.length := by
    rw [UInt8.toNat_ofNat']
    omega
  rw [encode, cons_append, cons_append, parseAttributes, hlen, if_neg (by rw [length_append]; omega),
    Nat.add_sub_cancel_left, take_left, drop_left]

theorem parseAttributes_flatMap_iff {attributes : List RadiusAttribute} :
    parseAttributes (attributes.flatMap encode) = attributes ↔ ∀ a ∈ attributes, a.value.length ≤ 253 := by
  constructor
  · intro h a ha
    rw [← h] at ha
    exact length_le_of_mem_parseAttributes ha
  · intro h
    induction attributes with
    | nil => rw [flatMap_nil, parseAttributes]; nofun
    | cons a attributes ih =>
      rw [forall_mem_cons] at h
      rw [flatMap_cons, parseAttributes_encode h.1, ih h.2]

theorem length_flatMap_encode (attributes : List RadiusAttribute) :
    (attributes.flatMap encode).length = (attributes.map wireLen).sum := by
  rw [length_flatMap]
  refine congrArg sum (map_congr_left fun a _ => ?_)
  rw [encode, wireLen, length_cons, length_cons]
  omega

theorem attributes_short_iff (r : AccessRequest) :
    (∀ a ∈ r.attributes md5 requestAuth, a.value.length ≤ 253) ↔ r.username.length ≤ 253 ∧ r.password.length ≤ 240 ∧
      r.nasIdentifier.length ≤ 253 ∧ ∀ s ∈ r.state, s.length ≤ 253 := by
  have hpassword : (∀ a ∈ (if r.password = [] then [] else
      [⟨2, papEncryptPassword md5 r.sharedSecret r.password requestAuth⟩] : List RadiusAttribute),
        a.value.length ≤ 253) ↔
        r.password.length ≤ 240 := by
    split_ifs with h
    · simp [h]
    · rw [forall_mem_singleton, length_papEncryptPassword]
      omega
  have hstate : (∀ a ∈ (r.state.map fun s => (⟨24, s⟩ : RadiusAttribute)).toList, a.value.length ≤ 253) ↔
      ∀ s ∈ r.state, s.length ≤ 253 := by
    cases r.state <;> simp
  simp only [AccessRequest.attributes, cons_append, forall_mem_cons, forall_mem_append, hpassword, hstate, and_assoc]
  simp

/-- **A request says what was meant** exactly if its texts fit into attributes. -/
theorem parse_buildAccessRequest_iff (md5 : Bytes → Block) (requestAuth : Block) (r : AccessRequest) :
    let packet := buildAccessRequest md5 requestAuth r
    parseAttributes (packet.drop 20) = r.attributes md5 requestAuth ∧ lengthField packet = packet.length ↔
      r.username.length ≤ 253 ∧ r.password.length ≤ 240 ∧ r.nasIdentifier.length ≤ 253 ∧
        ∀ s ∈ r.state, s.length ≤ 253 := by
  intro packet
  have hdrop : packet.drop 20 = (r.attributes md5 requestAuth).flatMap encode :=
    drop_left' (by rw [length_append, length_ofFn]; rfl)
  rw [hdrop, parseAttributes_flatMap_iff, attributes_short_iff]
  refine and_iff_left_of_imp fun hshort => ?_
  have htotal : packet.length = 20 + ((r.attributes md5 requestAuth).map wireLen).sum := by
    rw [← length_flatMap_encode]
    simp [packet, buildAccessRequest]
    omega
  have hcount : (r.attributes md5 requestAuth).length ≤ 6 := by
    simp only [AccessRequest.attributes]
    split_ifs <;> cases r.nasIp <;> cases r.state <;> simp
  have hsum : ((r.attributes md5 requestAuth).map wireLen).sum ≤ (r.attributes md5 requestAuth).length * 255 := by
    rw [← length_map (f := wireLen)]
    refine sum_le_card_nsmul _ 255 fun n hn => ?_
    obtain ⟨a, ha, rfl⟩ := List.mem_map.mp hn
    have hle := ((attributes_short_iff requestAuth r).mpr hshort) a ha
    rw [wireLen]
    omega
  have hfield : lengthField packet = 256 * (UInt8.ofNat ((20 + ((r.attributes md5 requestAuth).map wireLen).sum) >>> 8)).toNat +
      (UInt8.ofNat ((20 + ((r.attributes md5 requestAuth).map wireLen).sum) &&& (2 ^ 8 - 1))).toNat := rfl
  rw [hfield, htotal, Nat.and_two_pow_sub_one_eq_mod, Nat.shiftRight_eq_div_pow, UInt8.toNat_ofNat', UInt8.toNat_ofNat']
  omega

/-- **An attribute of the user's own.** A name of 256 bytes is announced as an empty one, and its first bytes are read as
a Service-Type. -/
theorem parse_buildAccessRequest_injected : ∃ rest, parseAttributes ((buildAccessRequest (fun _ _ => 0) (fun _ => 0)
      ⟨7, 6 :: 6 :: 0 :: 0 :: 0 :: 6 :: replicate 250 97, [], [], [112], none, none⟩).drop 20) =
      ⟨1, []⟩ :: ⟨6, [0, 0, 0, 6]⟩ :: rest := by
  have hname : encode ⟨1, 6 :: 6 :: 0 :: 0 :: 0 :: 6 :: replicate 250 97⟩ =
      encode ⟨1, []⟩ ++ (encode ⟨6, [0, 0, 0, 6]⟩ ++ replicate 250 97) := by
    simp only [encode, length_cons, length_replicate]
    rfl
  rw [buildAccessRequest, drop_left' (by rw [length_append, length_ofFn]; rfl)]
  simp only [AccessRequest.attributes, cons_append, flatMap_cons]
  rw [hname, append_assoc, parseAttributes_encode (by decide), append_assoc, parseAttributes_encode (by decide)]
  exact ⟨_, rfl⟩

end Persea.Radius
