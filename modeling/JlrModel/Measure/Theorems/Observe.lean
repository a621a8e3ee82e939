import JlrModel.Measure.Observe

variable [Crypto] [Md5]

section

variable {maxSize : UInt64} {wantMd5 : Bool} {m : Measured}

-- The digest is that of the bytes that were read, whatever happened to the file.
theorem measureInner_ok {a : Attempt} (h : measureInner a maxSize wantMd5 = .ok m) :
    ∃ content, a.content maxSize = .ok content ∧ m.digest = Digest.of content.data := by
  have ⟨_, _, h⟩ := Except.bind_eq_ok.mp h
  have ⟨_, _, h⟩ := Except.bind_eq_ok.mp h
  have ⟨_, _, h⟩ := Except.bind_eq_ok.mp h
  have ⟨_, _, h⟩ := Except.bind_eq_ok.mp h
  have ⟨content, hc, h⟩ := Except.bind_eq_ok.mp h
  have ⟨_, _, h⟩ := Except.bind_eq_ok.mp h
  have ⟨_, _, h⟩ := Except.bind_eq_ok.mp h
  have ⟨_, _, h⟩ := Except.bind_eq_ok.mp h
  cases h
  exact ⟨content, hc, rfl⟩

theorem measureAttempts_ok {io : MeasureIo} {attempts i : Nat}
    (h : measureAttempts io maxSize wantMd5 attempts i = .ok m) :
    ∃ j content, (io.attempt j).content maxSize = .ok content ∧ m.digest = Digest.of content.data := by
  induction attempts generalizing i
  case zero => cases h
  case succ attempts ih =>
    rw [measureAttempts] at h
    split at h
    case h_1 => exact ih h
    case h_2 => exact ⟨i, measureInner_ok h⟩

end

section

variable {p : PathIo} {dpkg : Option DpkgDb} {opts : ObserveOptions} {opened : Except OpenError Unit} {io : MeasureIo}
  {obs : Observation}

omit [Crypto] [Md5] in
theorem observeMeasured_ok {m : Measured} (h : observeMeasured m p dpkg opts = .ok obs) :
    obs.record = Observe.record m p (p.real p.after) (dpkg.bind (·.ownership (p.real p.after))) := by
  have ⟨_, _, h⟩ := Except.bind_eq_ok.mp h
  cases h
  rfl

theorem observe_ok (h : observe p dpkg opts opened io = .ok obs) :
    ∃ m, measureFileStable io opts.maxSize (wantsMd5 dpkg p) = .ok m ∧ observeMeasured m p dpkg opts = .ok obs := by
  have ⟨m, hm, h⟩ := Except.bind_eq_ok.mp h
  have ⟨_, _, hm⟩ := Except.bind_eq_ok.mp hm
  exact ⟨m, hm, h⟩

theorem observeOpen_ok (h : observeOpen p dpkg opts io = .ok obs) :
    ∃ m, measureFileStable io opts.maxSize (wantsMd5 dpkg p) = .ok m ∧ observeMeasured m p dpkg opts = .ok obs :=
  Except.bind_eq_ok.mp h

-- The record has the digest of what was read.
theorem observe_content (h : observe p dpkg opts opened io = .ok obs) :
    ∃ i content, (io.attempt i).content opts.maxSize = .ok content ∧ obs.record.digest = Digest.of content.data := by
  have ⟨m, hm, h⟩ := observe_ok h
  rw [observeMeasured_ok h]
  exact measureAttempts_ok hm

-- A measurement alone does not establish the provenance of what was measured.
theorem Observation.Measured.provenance (h : obs.Measured) :
    obs.record.provenance.satisfies .verifiedChecksum = false := by
  -- Whether a package owns the file or not.
  have rank (own : Option DpkgOwnership) : (Observe.provenance own).satisfies .verifiedChecksum = false := by
    cases own <;> rfl
  cases h
  case path h =>
    have ⟨_, _, h⟩ := observe_ok h
    rw [observeMeasured_ok h]
    exact rank _
  case descriptor h =>
    have ⟨_, _, h⟩ := observeOpen_ok h
    rw [observeMeasured_ok h]
    exact rank _

end
