import ProofProducer.CompleteWrites
import ProofProducer.ProverSpec
import Mathlib.Data.List.Forall2

/-!
# Challenge aggregation

The values of all input files are absorbed in the order of the list, and the challenge is
written when all of them have been read. A failure before that leaves every file alone.
-/

namespace ProofProducer

open Effects Files Files.FileSystem Codecs

set_option autoImplicit false

variable {L : Crypto3} {d : Disk} {p : Prover L} {fs : FileSystem} {inputs : List Path}
  {out : Path} {transcript : L.Transcript}

/-- The challenge that a file decodes to. -/
def challengeIn (L : Crypto3) (fs : FileSystem) (path : Path) :
    Except Exception (Option L.ChallengeMarshalling) :=
  decodeMarshallingFromFile L.fieldElement fs path false

/-- The files hold these challenges, one each. -/
def Challenges (L : Crypto3) (fs : FileSystem) (inputs : List Path)
    (challenges : List L.ChallengeMarshalling) : Prop :=
  List.Forall₂ (fun path c => challengeIn L fs path = .ok (some c)) inputs challenges

/-- The transcript after it has absorbed the values one after the other. -/
def absorbed (L : Crypto3) (transcript : L.Transcript) (challenges : List L.ChallengeMarshalling) :
    L.Transcript :=
  challenges.foldl (fun t c => L.absorb t (L.fieldElementValue c)) transcript

/-- The bytes of the challenge that is squeezed from a fresh transcript after the values. -/
def aggregatedBytes (L : Crypto3) (challenges : List L.ChallengeMarshalling) : Option Bytes :=
  L.fieldElement.encoding (L.fieldElementOf (L.challenge (absorbed L L.transcript challenges)))

theorem absorbChallenges_cons (path : Path) (inputs : List Path) (transcript : L.Transcript) :
    Prover.absorbChallenges L fs (path :: inputs) transcript =
      match challengeIn L fs path with
      | .error e => .error e
      | .ok none => .ok none
      | .ok (some c) =>
        Prover.absorbChallenges L fs inputs (L.absorb transcript (L.fieldElementValue c)) := rfl

theorem absorbChallenges_some_iff {t : L.Transcript} :
    Prover.absorbChallenges L fs inputs transcript = .ok (some t) ↔
      ∃ challenges, Challenges L fs inputs challenges ∧ t = absorbed L transcript challenges := by
  unfold Challenges
  induction inputs generalizing transcript with
  | nil =>
    simp only [List.forall₂_nil_left_iff, exists_eq_left]
    constructor
    · intro h
      exact (Option.some.inj (Except.ok.inj h)).symm
    · intro h
      rw [h]
      rfl
  | cons path inputs ih =>
    rw [absorbChallenges_cons]
    constructor
    · intro h
      rcases hc : challengeIn L fs path with e | r
      · simp [hc] at h
      cases r with
      | none => simp [hc] at h
      | some c =>
        simp only [hc] at h
        obtain ⟨challenges, hall, rfl⟩ := ih.mp h
        exact ⟨c :: challenges, .cons hc hall, rfl⟩
    · intro h
      obtain ⟨challenges, hall, rfl⟩ := h
      cases hall with
      | @cons _ c _ challenges hc hall =>
        simp only [hc]
        exact ih.mpr ⟨challenges, hall, rfl⟩

/-- Without a throw the loop ends with a transcript or comes to a file it cannot decode. -/
theorem absorbChallenges_ok (hreads : ∀ path ∈ inputs, ∃ r, challengeIn L fs path = .ok r) :
    ∃ r, Prover.absorbChallenges L fs inputs transcript = .ok r := by
  induction inputs generalizing transcript with
  | nil => exact ⟨_, rfl⟩
  | cons path inputs ih =>
    obtain ⟨⟨r, hr⟩, hrest⟩ := List.forall_mem_cons.mp hreads
    rw [absorbChallenges_cons, hr]
    cases r with
    | none => exact ⟨_, rfl⟩
    | some c => exact ih hrest

theorem Challenges.unique {challenges others : List L.ChallengeMarshalling}
    (h : Challenges L fs inputs challenges) (hothers : Challenges L fs inputs others) :
    others = challenges := by
  unfold Challenges at h hothers
  induction h generalizing others with
  | nil => exact List.forall₂_nil_left_iff.mp hothers
  | @cons path c inputs challenges hc _ ih =>
    cases hothers with
    | @cons _ c' _ others hc' hrest =>
      rw [ih hrest, Option.some.inj (Except.ok.inj (hc'.symm.trans hc))]

theorem Challenges.mem {challenges : List L.ChallengeMarshalling}
    (h : Challenges L fs inputs challenges) {path : Path} (hm : path ∈ inputs) :
    ∃ c, challengeIn L fs path = .ok (some c) := by
  unfold Challenges at h
  induction h with
  | nil => simp at hm
  | @cons path' c inputs challenges hc _ ih =>
    rcases List.mem_cons.mp hm with he | hm
    · exact ⟨c, by rw [he, hc]⟩
    · exact ih hm

/-- The checks that the inputs have to pass. -/
def Readable (L : Crypto3) (fs : FileSystem) (path : Path) : Prop :=
  isValidPath path = true ∧ fileExists fs path = true ∧ ∃ c, challengeIn L fs path = .ok (some c)

theorem canReadFromFile_iff (fs : FileSystem) (path : Path) :
    canReadFromFile fs path = true ↔ isValidPath path = true ∧ fileExists fs path = true := by
  unfold canReadFromFile fileExists
  cases isValidPath path <;> simp

theorem aggregate_run_of_challenges {challenges : List L.ChallengeMarshalling} (hne : inputs ≠ [])
    (hopen : ∀ path ∈ inputs, canReadFromFile fs path = true)
    (hall : Challenges L fs inputs challenges) :
    (Prover.generateAggregatedChallengeToFile d inputs out).run ⟨p, fs⟩ =
      match aggregatedBytes L challenges with
      | none => (.ok false, ⟨p, fs⟩)
      | some v => (.ok (written d fs out v).1, ⟨p, (written d fs out v).2⟩) := by
  have habsorb : Prover.absorbChallenges L fs inputs L.transcript =
      .ok (some (absorbed L L.transcript challenges)) :=
    absorbChallenges_some_iff.mpr ⟨challenges, hall, rfl⟩
  have hguard : ¬ (inputs = [] ∨ inputs.all (canReadFromFile fs) = false) := by
    intro h
    rcases h with h | h
    · exact hne h
    · rw [List.all_eq_true.mpr hopen] at h
      simp at h
  rw [Prover.generateAggregatedChallengeToFile_run, if_neg hguard, habsorb]
  rfl

theorem aggregate_run_of_failure
    (hreads : ∀ path ∈ inputs, ∃ r, challengeIn L fs path = .ok r)
    (hfail : inputs = [] ∨ ∃ path ∈ inputs, ¬ Readable L fs path) :
    (Prover.generateAggregatedChallengeToFile d inputs out).run ⟨p, fs⟩ = (.ok false, ⟨p, fs⟩) := by
  rw [Prover.generateAggregatedChallengeToFile_run]
  by_cases hguard : inputs = [] ∨ inputs.all (canReadFromFile fs) = false
  · rw [if_pos hguard]
  rw [if_neg hguard]
  obtain ⟨hne, hopen⟩ := not_or.mp hguard
  obtain ⟨path, hm, hbad⟩ := hfail.resolve_left hne
  have hpath : canReadFromFile fs path = true :=
    List.all_eq_true.mp (Bool.of_not_eq_false hopen) path hm
  obtain ⟨hvalid, hexists⟩ := (canReadFromFile_iff fs path).mp hpath
  have hends : ∃ r, Prover.absorbChallenges L fs inputs L.transcript = .ok r :=
    absorbChallenges_ok hreads
  obtain ⟨r, hr⟩ := hends
  cases r with
  | none => rw [hr]
  | some t =>
    obtain ⟨challenges, hall, _⟩ := absorbChallenges_some_iff.mp hr
    exact (hbad ⟨hvalid, hexists, hall.mem hm⟩).elim

theorem exists_challenges (h : ∀ path ∈ inputs, Readable L fs path) :
    ∃ challenges, Challenges L fs inputs challenges := by
  induction inputs with
  | nil => exact ⟨[], .nil⟩
  | cons path inputs ih =>
    obtain ⟨⟨_, _, c, hc⟩, hrest⟩ := List.forall_mem_cons.mp h
    obtain ⟨challenges, hall⟩ := ih hrest
    exact ⟨c :: challenges, .cons hc hall⟩

/-- The answer is yes exactly if there are inputs, all of them can be read and the challenge is
written. Then the output holds the challenge, unless the disk lost it when the stream was closed,
and no other file changed. An input that cannot be read leaves every file alone. -/
theorem aggregated_challenge_spec (d : Disk) (inputs : List Path) (out : Path) (p : Prover L)
    (fs : FileSystem) (hreads : ∀ path ∈ inputs, ∃ r, challengeIn L fs path = .ok r) :
    (((Prover.generateAggregatedChallengeToFile d inputs out).run ⟨p, fs⟩).1 = .ok true ↔
      inputs ≠ [] ∧ (∀ path ∈ inputs, Readable L fs path) ∧
        ∃ challenges v, Challenges L fs inputs challenges ∧
          aggregatedBytes L challenges = some v ∧ Writable d fs out v) ∧
    (((Prover.generateAggregatedChallengeToFile d inputs out).run ⟨p, fs⟩).1 = .ok true →
      ∃ challenges v, Challenges L fs inputs challenges ∧
        aggregatedBytes L challenges = some v ∧
        (Settled d fs out v.length →
          ((Prover.generateAggregatedChallengeToFile d inputs out).run
            ⟨p, fs⟩).2.files.content out = some v) ∧
        ∀ q, ¬ fs.SameFile q out →
          ((Prover.generateAggregatedChallengeToFile d inputs out).run ⟨p, fs⟩).2.files.lookup q =
            fs.lookup q) ∧
    ((∃ path ∈ inputs, ¬ Readable L fs path) →
      (Prover.generateAggregatedChallengeToFile d inputs out).run ⟨p, fs⟩ =
        (.ok false, ⟨p, fs⟩)) := by
  by_cases hfail : inputs = [] ∨ ∃ path ∈ inputs, ¬ Readable L fs path
  · have hrun : (Prover.generateAggregatedChallengeToFile d inputs out).run ⟨p, fs⟩ =
        (.ok false, ⟨p, fs⟩) := aggregate_run_of_failure hreads hfail
    rw [hrun]
    refine ⟨iff_of_false (by simp) ?_, fun h => by simp at h, fun _ => rfl⟩
    intro h
    rcases hfail with he | ⟨path, hm, hbad⟩
    · exact h.1 he
    · exact hbad (h.2.1 path hm)
  obtain ⟨hne, hno⟩ := not_or.mp hfail
  have hall : ∀ path ∈ inputs, Readable L fs path := by
    intro path hm
    by_contra hbad
    exact hno ⟨path, hm, hbad⟩
  obtain ⟨challenges, hchallenges⟩ := exists_challenges hall
  have hopen : ∀ path ∈ inputs, canReadFromFile fs path = true := by
    intro path hm
    exact (canReadFromFile_iff fs path).mpr ⟨(hall path hm).1, (hall path hm).2.1⟩
  have hrun : (Prover.generateAggregatedChallengeToFile d inputs out).run ⟨p, fs⟩ =
      match aggregatedBytes L challenges with
      | none => (.ok false, ⟨p, fs⟩)
      | some v => (.ok (written d fs out v).1, ⟨p, (written d fs out v).2⟩) :=
    aggregate_run_of_challenges hne hopen hchallenges
  have hunique : ∀ others, Challenges L fs inputs others → others = challenges :=
    fun _ hothers => hchallenges.unique hothers
  rw [hrun]
  cases hv : aggregatedBytes L challenges with
  | none =>
    refine ⟨iff_of_false (by simp) ?_, fun h => by simp at h, fun h => (hno h).elim⟩
    intro h
    obtain ⟨_, _, others, v, hothers, hbytes, _⟩ := h
    rw [hunique others hothers, hv] at hbytes
    simp at hbytes
  | some v =>
    dsimp only
    refine ⟨?_, ?_, fun h => (hno h).elim⟩
    · constructor
      · intro h
        obtain ⟨l, ho, hr, _⟩ := openForWriting_of_written (Prod.ext (Except.ok.inj h) rfl)
        exact ⟨hne, hall, challenges, v, hchallenges, hv, l, ho, hr⟩
      · intro h
        obtain ⟨_, _, others, w, hothers, hbytes, hwritable⟩ := h
        rw [hunique others hothers, hv] at hbytes
        rw [Option.some.inj hbytes]
        obtain ⟨fs₁, hw⟩ := exists_written_iff.mpr hwritable
        rw [hw]
    · intro h
      refine ⟨challenges, v, hchallenges, hv, ?_, ?_⟩
      · intro hsettled
        exact written_complete_iff.mpr hsettled (Except.ok.inj h)
      · intro q hq
        exact lookup_written_of_ne hq

/-- Two challenge files. -/
def challengeFiles : FileSystem := (FileSystem.empty.store [['a']] [5]).store [['b']] [7]

/-- One input is absorbed twice and the other is overwritten. -/
theorem aggregated_challenge_spec_overwrite :
    ((Prover.generateAggregatedChallengeToFile .reliable [['a'], ['b'], ['a']] ['b']).run
      ⟨Prover.new .small 9 2 0 69, challengeFiles⟩).1 = .ok true := by
  have hreads : ∀ path ∈ [['a'], ['b'], ['a']],
      ∃ r, challengeIn .small challengeFiles path = .ok r := by
    intro path hm
    simp only [List.mem_cons, List.not_mem_nil, or_false] at hm
    rcases hm with rfl | rfl | rfl
    · exact ⟨some (5 : UInt8), rfl⟩
    · exact ⟨some (7 : UInt8), rfl⟩
    · exact ⟨some (5 : UInt8), rfl⟩
  have hreadable : ∀ path ∈ [['a'], ['b'], ['a']], Readable .small challengeFiles path := by
    intro path hm
    simp only [List.mem_cons, List.not_mem_nil, or_false] at hm
    rcases hm with rfl | rfl | rfl
    · exact ⟨by decide, by decide, (5 : UInt8), rfl⟩
    · exact ⟨by decide, by decide, (7 : UInt8), rfl⟩
    · exact ⟨by decide, by decide, (5 : UInt8), rfl⟩
  have hchallenges : Challenges .small challengeFiles [['a'], ['b'], ['a']]
      [(5 : UInt8), (7 : UInt8), (5 : UInt8)] := .cons rfl (.cons rfl (.cons rfl .nil))
  exact (aggregated_challenge_spec .reliable [['a'], ['b'], ['a']] ['b']
    (Prover.new .small 9 2 0 69) challengeFiles hreads).1.mpr
    ⟨by simp, hreadable, _, [71], hchallenges, rfl, [['b']], rfl, rfl⟩

end ProofProducer
