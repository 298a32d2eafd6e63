import ObjectCommon.Codec.Digest
import ObjectCommon.MultipartPlan
import ObjectCommon.RangeParts

/-!
# Multipart uploads assemble their content

* `partContents size count content` : the contents of `count` parts of `size` bytes, in order;
* `plannedParts` : the number and the identity of each of them;
* `numbers_le_of_planned`, `perm_of_complete` : planned parts that complete an Object are all of them, each once;
* `multipart_assembles` : what completes an upload, and what the completed parts make up.
-/

namespace ObjectCommon

open Outcome KeySort MultipartCompletion

/-! ## The parts of a content -/

/-- The contents of `count` parts of `size` bytes, which the last need not fill. -/
def partContents (size : Positive) (count : Nat) (content : Bytes) : List Bytes :=
  (ByteRange.consecutive 0 (List.replicate count size)).map fun r => r.requested content

theorem length_partContents (size : Positive) (count : Nat) (content : Bytes) :
    (partContents size count content).length = count := by
  rw [partContents, List.length_map, ByteRange.length_consecutive, List.length_replicate]

/-- Enough parts hold the content. -/
theorem flatten_partContents {size : Positive} {count : Nat} {content : Bytes} (h : content.length ≤ count * size.val) :
    (partContents size count content).flatten = content := by
  rw [partContents, ByteRange.flatten_consecutive, List.drop_zero, List.map_replicate, List.sum_replicate, nsmul_eq_mul,
    Nat.cast_id]
  exact List.take_of_length_le h

theorem length_le_of_mem_partContents {size : Positive} {count : Nat} {content b : Bytes}
    (h : b ∈ partContents size count content) : b.length ≤ size.val := by
  obtain ⟨r, hr, rfl⟩ := List.mem_map.mp h
  obtain ⟨start, length, hlength, rfl⟩ := ByteRange.mem_consecutive hr
  rw [List.eq_of_mem_replicate hlength, ByteRange.requested_closed]
  exact List.length_take_le _ _

variable {H : Hasher}

/-- The numbers and the identities of the parts of a content. -/
def plannedParts (hH : H.Sha256) (size : Positive) (count : Nat) (content : Bytes) : List (Nat × ContentIdentity) :=
  (List.range' 1 count).zip ((partContents size count content).map (Hasher.identity hH))

/-- What an upload of a part says of it. -/
def MultipartPart.entry (p : MultipartPart) : Nat × ContentIdentity := (p.number.val, p.identity)

variable {hH : H.Sha256} {size : Positive} {count : Nat} {content : Bytes} {parts : List MultipartPart}

theorem length_plannedParts : (plannedParts hH size count content).length = count := by
  rw [plannedParts, List.length_zip, List.length_range', List.length_map, length_partContents, Nat.min_self]

theorem map_fst_plannedParts : (plannedParts hH size count content).map Prod.fst = List.range' 1 count := by
  apply List.map_fst_zip
  rw [List.length_range', List.length_map, length_partContents]

theorem map_snd_plannedParts : (plannedParts hH size count content).map Prod.snd =
    (partContents size count content).map (Hasher.identity hH) := by
  apply List.map_snd_zip
  rw [List.length_range', List.length_map, length_partContents]

theorem map_fst_entry (parts : List MultipartPart) : (parts.map MultipartPart.entry).map Prod.fst = numbers parts :=
  List.map_map

/-! ## Completions -/

/-- All parts of a content, in any order, complete it. -/
theorem complete_of_perm (hcount : 0 < count) (hge : content.length ≤ count * size.val)
    (h : (parts.map MultipartPart.entry).Perm (plannedParts hH size count content)) :
    Complete parts (Hasher.identity hH content) := by
  have hlength : parts.length = count := by
    rw [← List.length_map MultipartPart.entry, h.length_eq, length_plannedParts]
  refine ⟨?_, ?_, ?_⟩
  · rintro rfl
    exact Nat.ne_of_lt hcount hlength
  · have hnumbers := h.map Prod.fst
    rwa [map_fst_entry, map_fst_plannedParts, ← hlength] at hnumbers
  · have hsum := ((h.map Prod.snd).map ContentIdentity.byteLength).sum_nat
    rw [map_snd_plannedParts, List.map_map, List.map_map, List.map_map] at hsum
    calc totalBytes parts
      _ = ((partContents size count content).map List.length).sum := hsum
      _ = content.length := by rw [← List.length_flatten, flatten_partContents hge]

/-- Planned parts that complete the content are all of them, each once. -/
theorem perm_of_complete {k : Nat} (hle : k * size.val ≤ content.length)
    (hlt : content.length ≠ 0 → k * size.val < content.length)
    (hparts : ∀ p ∈ parts, p.entry ∈ plannedParts hH size (k + 1) content)
    (h : Complete parts (Hasher.identity hH content)) :
    (parts.map MultipartPart.entry).Perm (plannedParts hH size (k + 1) content) := by
  have hnodup : (parts.map MultipartPart.entry).Nodup := by
    apply List.Nodup.of_map Prod.fst
    rw [map_fst_entry]
    exact h.nodup
  have hsub : (parts.map MultipartPart.entry) ⊆ plannedParts hH size (k + 1) content := by
    intro entry hentry
    obtain ⟨p, hp, rfl⟩ := List.mem_map.mp hentry
    exact hparts p hp
  have hsize : ∀ p ∈ parts, p.identity.byteLength ≤ size.val := by
    intro p hp
    have hmem : p.identity ∈ (plannedParts hH size (k + 1) content).map Prod.snd := List.mem_map_of_mem (hparts p hp)
    rw [map_snd_plannedParts] at hmem
    obtain ⟨b, hb, hidentity⟩ := List.mem_map.mp hmem
    rw [← hidentity]
    exact length_le_of_mem_partContents hb
  -- fewer parts than planned would hold less than the content
  have htotal := totalBytes_le hsize
  rw [h.lengths] at htotal
  have hcount := lt_length_of_le size.2 (List.length_pos_iff.mpr h.ne_nil) hle hlt htotal
  apply (hnodup.subperm hsub).perm_of_length_le
  rw [length_plannedParts, List.length_map]
  exact hcount

/-- The completed parts are the planned ones, in order. -/
theorem entries_of_perm {completion : MultipartCompletion}
    (h : (parts.map MultipartPart.entry).Perm (plannedParts hH size count content))
    (hcompletion : completion.parts = sortedByNumber parts) :
    completion.parts.map MultipartPart.entry = plannedParts hH size count content := by
  have hperm : (completion.parts.map MultipartPart.entry).Perm (plannedParts hH size count content) := by
    rw [hcompletion]
    exact ((sortByKey_perm _ parts).map _).trans h
  have hsorted : (plannedParts hH size count content).Pairwise (fun a b => a.1 < b.1) := by
    rw [← List.pairwise_map, map_fst_plannedParts]
    exact List.pairwise_lt_range'
  have hcompleted : (completion.parts.map MultipartPart.entry).Pairwise (fun a b => a.1 < b.1) := by
    rw [← List.pairwise_map, map_fst_entry, completion.contiguous]
    exact List.pairwise_lt_range'
  exact hperm.eq_of_pairwise (fun a b _ _ hab hba => absurd hab (Nat.lt_asymm hba)) hcompleted hsorted

/-- **A multipart upload is completed when every part has arrived once, and then makes up its content.** Of a plan that
the limits allow, parts complete the content exactly when they are all the planned ones in some order. The completion
has them in the order of the plan, and the contents of these, one after another, are the content. -/
theorem multipart_assembles (hH : H.Sha256) {l : MultipartLimits} {c : Int}
    (h : l.validate (.int size.val) (some content.length) = .ok (some c)) :
    ∃ count : Nat, c = count ∧ (partContents size count content).flatten = content ∧
      ∀ parts : List MultipartPart, (∀ p ∈ parts, p.entry ∈ plannedParts hH size count content) →
        ((∃ completion, MultipartCompletion.new parts (Hasher.identity hH content) = .ok completion) ↔
          (parts.map MultipartPart.entry).Perm (plannedParts hH size count content)) ∧
        ∀ completion, MultipartCompletion.new parts (Hasher.identity hH content) = .ok completion →
          completion.parts.map MultipartPart.entry = plannedParts hH size count content := by
  obtain ⟨s, hs, -, -, hcount, -⟩ := MultipartLimits.validate_eq_ok.mp h
  obtain rfl : size.val = s := by exact_mod_cast Json.int.inj hs
  obtain ⟨k, hk, hle, hlt, hge⟩ := MultipartLimits.exists_partCount content.length size.2
  have hperm : ∀ parts : List MultipartPart, (∀ p ∈ parts, p.entry ∈ plannedParts hH size (k + 1) content) →
      ∀ completion, MultipartCompletion.new parts (Hasher.identity hH content) = .ok completion →
        (parts.map MultipartPart.entry).Perm (plannedParts hH size (k + 1) content) := by
    intro parts hparts completion hnew
    exact perm_of_complete hle hlt hparts (MultipartCompletion.new_eq_ok.mp hnew).1
  refine ⟨k + 1, (Option.some.inj hcount).trans hk, flatten_partContents hge, fun parts hparts => ⟨⟨?_, ?_⟩, ?_⟩⟩
  · rintro ⟨completion, hnew⟩
    exact hperm parts hparts completion hnew
  · intro hall
    exact MultipartCompletion.exists_new (complete_of_perm k.succ_pos hge hall)
  · intro completion hnew
    exact entries_of_perm (hperm parts hparts completion hnew) (MultipartCompletion.new_eq_ok.mp hnew).2.1

def fiveBytes : Bytes := [104, 101, 108, 108, 111]

/-- The SHA-256 digests of five bytes and of their parts. -/
def fiveDigests : List (Bytes × Str) :=
  [(fiveBytes, "2cf24dba5fb0a30e26e83b2ac5b9e29e1b161e5c1fa7425e73043362938b9824"),
    ([104, 101], "372f7e2fd2d01ce2a1d71dc072acbba4c6fd25a1087cd7f153f4ec0ce37e1ede"),
    ([108, 108], "f9e012396be65db022bd11de9308a9b40e04e492cc4ee8636c09fb83df4aa27b"),
    ([111], "65c74c15a686187bb6bbf9958f494fc6b80068034a659a9ad44991b08c58f2d2")]

theorem fiveDigests_sha256 : (Hasher.retaining (listedDigest fiveDigests)).Sha256 :=
  Hasher.retaining_sha256 (digestRe_listedDigest (by decide +kernel))

def fivePart (number : Positive) (content : Bytes) : MultipartPart :=
  ⟨number, Hasher.identity fiveDigests_sha256 content, exampleToken⟩

/-- Five bytes in parts of two, of which the last arrives first. -/
theorem multipart_assembles_five : ∃ completion, MultipartCompletion.new
      [fivePart ⟨3, by decide⟩ [111], fivePart ⟨1, by decide⟩ [104, 101], fivePart ⟨2, by decide⟩ [108, 108]]
      (Hasher.identity fiveDigests_sha256 fiveBytes) = .ok completion ∧
    completion.parts.map MultipartPart.entry = plannedParts fiveDigests_sha256 ⟨2, by decide⟩ 3 fiveBytes ∧
    partContents ⟨2, by decide⟩ 3 fiveBytes = [[104, 101], [108, 108], [111]] ∧
    (partContents ⟨2, by decide⟩ 3 fiveBytes).flatten = fiveBytes := by
  have hplan : MultipartLimits.validate ⟨1, 8, 4, by decide, by decide, by decide⟩ (.int (⟨2, by decide⟩ : Positive).val)
      (some fiveBytes.length) = .ok (some 3) := rfl
  obtain ⟨count, hcount, hflatten, hcompletes⟩ := multipart_assembles fiveDigests_sha256 hplan
  obtain rfl : 3 = count := by exact_mod_cast hcount
  let parts := [fivePart ⟨1, by decide⟩ [104, 101], fivePart ⟨2, by decide⟩ [108, 108]]
  have hplanned : plannedParts fiveDigests_sha256 ⟨2, by decide⟩ 3 fiveBytes =
      (parts ++ [fivePart ⟨3, by decide⟩ [111]]).map MultipartPart.entry := rfl
  have hperm : ((fivePart ⟨3, by decide⟩ [111] :: parts).map MultipartPart.entry).Perm
      (plannedParts fiveDigests_sha256 ⟨2, by decide⟩ 3 fiveBytes) := by
    rw [hplanned]
    exact ((List.perm_append_singleton _ parts).map _).symm
  obtain ⟨hiff, hordered⟩ := hcompletes (fivePart ⟨3, by decide⟩ [111] :: parts) fun p hp =>
    hperm.mem_iff.mp (List.mem_map_of_mem hp)
  obtain ⟨completion, hnew⟩ := hiff.mpr hperm
  exact ⟨completion, hnew, hordered completion hnew, rfl, hflatten⟩

end ObjectCommon
