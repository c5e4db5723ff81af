import Quicp.Recovery.Reassembler

/-!
# Errors of the reassembler

Flow control is checked before the reassembler gets a record. The reassembler itself answers
with other errors only.
-/

namespace Quicp

private theorem checkedEnd_ne_flowControl (offset length : ℕ) : checkedEnd offset length ≠ .error .flowControl := by
  unfold checkedEnd
  split <;> nofun

private theorem reserve_ne_flowControl (budget : RecoveryMemoryBudget) (bytes : ℕ) :
    RecoveryCharge.reserve budget bytes ≠ .error .flowControl := by
  unfold RecoveryCharge.reserve
  split <;> nofun

private theorem growUnless_ne_flowControl (precharged : Bool) (charge : RecoveryCharge) (budget : RecoveryMemoryBudget)
    (bytes : ℕ) : charge.growUnless precharged budget bytes ≠ .error .flowControl := by
  unfold RecoveryCharge.growUnless RecoveryCharge.grow
  split
  · nofun
  · split
    · nofun
    · split <;> nofun

private theorem split_ne_flowControl (charge : RecoveryCharge) (bytes : ℕ) :
    charge.split bytes ≠ .error .flowControl := by
  unfold RecoveryCharge.split
  split <;> nofun

theorem Reassembler.setFinalOffset_ne_flowControl (r : Reassembler) (finalOffset : ℕ) :
    r.setFinalOffset finalOffset ≠ .error .flowControl := by
  unfold setFinalOffset
  split <;> nofun

private theorem validateOverlaps_ne_flowControl (offset stop : ℕ) (bytes : List UInt8)
    (chunks : List (ℕ × BufferedChunk)) : validateOverlaps offset stop bytes chunks ≠ .error .flowControl := by
  induction chunks with
  | nil => nofun
  | cons chunk rest ih =>
    unfold validateOverlaps
    split
    · next error herror =>
      rintro ⟨⟩
      exact checkedEnd_ne_flowControl _ _ herror
    · split_ifs
      · exact ih
      · exact ih
      · nofun

private theorem countGap_ne_flowControl (scan : OverlapScan) (offset : ℕ) :
    scan.countGap offset ≠ .error .flowControl := by
  unfold OverlapScan.countGap
  split
  · split <;> nofun
  · nofun

private theorem scanOverlaps_ne_flowControl (offset stop : ℕ) (bytes : List UInt8) (scan : OverlapScan)
    (chunks : List (ℕ × BufferedChunk)) : scanOverlaps offset stop bytes scan chunks ≠ .error .flowControl := by
  induction chunks generalizing scan with
  | nil => exact countGap_ne_flowControl scan stop
  | cons chunk rest ih =>
    unfold scanOverlaps
    split
    · next error herror =>
      rintro ⟨⟩
      exact checkedEnd_ne_flowControl _ _ herror
    · split
      · exact ih scan
      · split
        · next error herror =>
          rintro ⟨⟩
          exact countGap_ne_flowControl _ _ herror
        · split
          · exact ih _
          · nofun

private theorem collectGaps_ne_flowControl (offset stop cursor : ℕ) (chunks : List (ℕ × BufferedChunk)) :
    collectGaps offset stop cursor chunks ≠ .error .flowControl := by
  induction chunks generalizing cursor with
  | nil => nofun
  | cons chunk rest ih =>
    unfold collectGaps
    split
    · next error herror =>
      rintro ⟨⟩
      exact checkedEnd_ne_flowControl _ _ herror
    · split
      · exact ih cursor
      · split
        · next error herror =>
          rintro ⟨⟩
          exact ih _ herror
        · nofun

private theorem insertGaps_ne_flowControl (offset : ℕ) (bytes : List UInt8) (chunks : OrderedMap ℕ BufferedChunk)
    (scratch : RecoveryCharge) (gaps : List (ℕ × ℕ)) :
    (insertGaps offset bytes chunks scratch gaps).1 ≠ .error .flowControl := by
  induction gaps generalizing chunks scratch with
  | nil => nofun
  | cons gap rest ih =>
    unfold insertGaps
    dsimp only
    split
    · nofun
    · split
      · next error herror =>
        rintro ⟨⟩
        exact split_ne_flowControl _ _ herror
      · exact ih _ _

namespace Reassembler

variable (r : Reassembler) (budget : RecoveryMemoryBudget)

private theorem finishDuplicate_ne_flowControl (stop : ℕ) (fin : Bool) (charge : RecoveryCharge) :
    (r.finishDuplicate budget stop fin charge).1 ≠ .error .flowControl := by
  unfold finishDuplicate
  split
  · split
    · next error herror =>
      rintro ⟨⟩
      exact r.setFinalOffset_ne_flowControl _ herror
    · nofun
  · nofun

private theorem fillGaps_ne_flowControl (offset stop : ℕ) (bytes : List UInt8) (fin : Bool) (charge : RecoveryCharge)
    (scan : OverlapScan) : (r.fillGaps budget offset stop bytes fin charge scan).1 ≠ .error .flowControl := by
  unfold fillGaps
  split
  · simp
  · split
    · next error herror =>
      rintro ⟨⟩
      exact reserve_ne_flowControl _ _ herror
    · split
      · simp
      · split
        · next error herror =>
          rintro ⟨⟩
          exact collectGaps_ne_flowControl _ _ _ _ herror
        · next gaps _ =>
          split
          · next scratch _ _ _ error _ _ herror =>
            rintro ⟨⟩
            exact insertGaps_ne_flowControl offset bytes _ _ gaps (congrArg Prod.fst herror)
          · simp

private theorem insertOverlappingRecord_ne_flowControl (offset stop : ℕ) (bytes : List UInt8) (fin : Bool)
    (charge : RecoveryCharge) :
    (r.insertOverlappingRecord budget offset stop bytes fin charge).1 ≠ .error .flowControl := by
  unfold insertOverlappingRecord
  split
  · next error herror =>
    rintro ⟨⟩
    exact scanOverlaps_ne_flowControl _ _ _ _ _ herror
  · split
    · exact finishDuplicate_ne_flowControl r budget stop fin charge
    · split
      · nofun
      · exact fillGaps_ne_flowControl r budget offset stop bytes fin charge _

private theorem insertUnread_ne_flowControl (offset stop : ℕ) (bytes : List UInt8) (retainedBytes : ℕ) (fin : Bool)
    (charge : RecoveryCharge) (precharged : Bool) :
    (r.insertUnread budget offset stop bytes retainedBytes fin charge precharged).1 ≠ .error .flowControl := by
  unfold insertUnread
  split
  · exact insertOverlappingRecord_ne_flowControl r budget offset stop bytes fin charge
  · split
    · nofun
    · split
      · nofun
      · split
        · next error herror =>
          rintro ⟨⟩
          exact growUnless_ne_flowControl _ _ _ _ herror
        · nofun

private theorem insertRecordWithReservation_ne_flowControl (offset : ℕ) (bytes : List UInt8) (fin : Bool)
    (charge : RecoveryCharge) (precharged : Bool) :
    (r.insertRecordWithReservation budget offset bytes fin charge precharged).1 ≠ .error .flowControl := by
  unfold insertRecordWithReservation
  split
  · nofun
  · split
    · next error herror =>
      rintro ⟨⟩
      exact checkedEnd_ne_flowControl _ _ herror
    · split_ifs
      · nofun
      · nofun
      · nofun
      · split
        · next error herror =>
          rintro ⟨⟩
          exact validateOverlaps_ne_flowControl _ _ _ _ herror
        · exact finishDuplicate_ne_flowControl r budget _ fin charge
      · split
        · next error herror =>
          rintro ⟨⟩
          unfold clipConsumed at herror
          split_ifs at herror
          split at herror
          · next hoverlap =>
            cases herror
            exact validateOverlaps_ne_flowControl _ _ _ _ hoverlap
          · cases herror
        · exact insertUnread_ne_flowControl r budget _ _ _ _ fin charge precharged

theorem insertRecord_ne_flowControl (offset : ℕ) (bytes : List UInt8) (fin : Bool) :
    (r.insertRecord budget offset bytes fin).1 ≠ .error .flowControl := by
  unfold insertRecord
  split
  · next error herror =>
    rintro ⟨⟩
    exact reserve_ne_flowControl _ _ herror
  · exact insertRecordWithReservation_ne_flowControl r _ offset bytes fin _ false

theorem insertRecordPrecharged_ne_flowControl (offset : ℕ) (bytes : List UInt8) (fin : Bool)
    (charge : RecoveryCharge) : (r.insertRecordPrecharged budget offset bytes fin charge).1 ≠ .error .flowControl :=
  insertRecordWithReservation_ne_flowControl r budget offset bytes fin charge true

end Reassembler

end Quicp
