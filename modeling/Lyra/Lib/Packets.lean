import Mathlib.Data.List.Basic

/-!
# OpenPGP packets

A sequence of packets, each with a tag and the length of its body in front of it, in the old or in
the new format; and the grammar of the messages that packets can make up.

* `top_bit_of_message`: the first byte of a message has its top bit set.
-/

namespace Lyra.Lib

/-! ## Framing -/

def bigEndian (bs : List UInt8) : Nat := bs.foldl (fun n b => 256 * n + b.toNat) 0

/-- What stands behind the next `n` bytes. -/
def skipBytes (n : Nat) (bs : List UInt8) : Option (List UInt8) :=
  if n ≤ bs.length then some (bs.drop n) else none

/-- What stands behind a length of `k` bytes and a body of that length. -/
def skipSized (k : Nat) (bs : List UInt8) : Option (List UInt8) :=
  (skipBytes k bs).bind (skipBytes (bigEndian (bs.take k)))

/-- What stands behind a body in the new format, which may come in parts. -/
def skipNewBody : Nat → List UInt8 → Option (List UInt8)
  | 0, _ => none
  | _ + 1, [] => none
  | fuel + 1, o :: rest =>
    let n := o.toNat
    if n < 192 then skipBytes n rest
    else if n < 224 then
      match rest with
      | [] => none
      | o' :: rest => skipBytes ((n - 192) * 256 + o'.toNat + 192) rest
    else if n = 255 then skipSized 4 rest
    else (skipBytes (1 <<< (n % 32)) rest).bind (skipNewBody fuel)

/-- What stands behind a body in the old format; the last body may have no length. -/
def skipOldBody (lengthType : Nat) (bs : List UInt8) : Option (List UInt8) :=
  if lengthType = 0 then skipSized 1 bs
  else if lengthType = 1 then skipSized 2 bs
  else if lengthType = 2 then skipSized 4 bs
  else some []

/-- The tag of the next packet, and what stands behind it. -/
def readPacket : List UInt8 → Option (Nat × List UInt8)
  | [] => none
  | header :: rest =>
    let n := header.toNat
    if n < 128 then none
    else if 192 ≤ n then (skipNewBody (rest.length + 1) rest).map fun rest => (n - 192, rest)
    else (skipOldBody (n % 4) rest).map fun rest => ((n - 128) / 4, rest)

/-- The tags of all packets. -/
def packetTags : Nat → List UInt8 → Option (List Nat)
  | _, [] => some []
  | 0, _ :: _ => none
  | fuel + 1, b :: bs =>
    (readPacket (b :: bs)).bind fun (tag, rest) => (packetTags fuel rest).map (tag :: ·)

/-! ## Messages -/

/-- The tags of a message: literal data, compressed data, session keys before encrypted data, or a
signed message. -/
inductive MessageTags : List Nat → Prop
  | literal : MessageTags [11]
  | compressed : MessageTags [8]
  | encrypted {keys : List Nat} {data : Nat} (hkeys : ∀ k ∈ keys, k = 1 ∨ k = 3)
      (hdata : data = 9 ∨ data = 18 ∨ data = 20) : MessageTags (keys ++ [data])
  | signed {tags : List Nat} (h : MessageTags tags) : MessageTags (2 :: tags)
  | onePass {tags : List Nat} (h : MessageTags tags) : MessageTags (4 :: tags ++ [2])

/-- The bytes are packets that make up a message; marker packets are skipped. -/
def IsMessage (bs : List UInt8) : Prop :=
  ∃ tags, packetTags bs.length bs = some tags ∧ MessageTags (tags.filter (· ≠ 10))

theorem MessageTags.ne_nil {tags : List Nat} (h : MessageTags tags) : tags ≠ [] := by
  cases h <;> simp

theorem top_bit_of_readPacket {b : UInt8} {bs : List UInt8} {p : Nat × List UInt8}
    (h : readPacket (b :: bs) = some p) : 128 ≤ b.toNat := by
  simp only [readPacket] at h
  split at h
  · cases h
  · omega

theorem top_bit_of_message {bs : List UInt8} (h : IsMessage bs) :
    ∃ b rest, bs = b :: rest ∧ 128 ≤ b.toNat := by
  obtain ⟨tags, htags, hmessage⟩ := h
  cases bs with
  | nil =>
    obtain rfl : [] = tags := Option.some.inj htags
    exact absurd rfl hmessage.ne_nil
  | cons b bs =>
    obtain ⟨p, hp, -⟩ := Option.bind_eq_some_iff.mp htags
    exact ⟨b, bs, rfl, top_bit_of_readPacket hp⟩

end Lyra.Lib
