import Misty.Types

/- The hard bounds of `misty_vault::limits`, `misty_vault::hlc` and
   `misty_otp::config`. -/
namespace Misty

def MAX_ISSUER_LEN : Nat := 256
def MAX_ACCOUNT_LEN : Nat := 256
def MAX_NICKNAME_LEN : Nat := 128
def MAX_NOTE_LEN : Nat := 8 * 1024
def MAX_TAG_LEN : Nat := 64
def MAX_ORIGIN_LEN : Nat := 253
def MAX_ICON_SLUG_LEN : Nat := 64
def MAX_GROUP_NAME_LEN : Nat := 128

/-- Most entries this device's own API adds to one OR-Set. -/
def MAX_SET_ENTRIES : Nat := 256

/-- Most entries a decoder accepts in one OR-Set. -/
def MAX_DECODED_SET_ENTRIES : Nat := 32 * MAX_SET_ENTRIES

def MAX_USAGE_DEVICES : Nat := 256
def MAX_ITEM_PAYLOAD_LEN : Nat := 512 * 1024
def MAX_GROUP_PAYLOAD_LEN : Nat := 8 * 1024

/-- 30 days, in milliseconds. -/
def TRASH_RETENTION_MS : Int := 30 * 24 * 60 * 60 * 1000

/-- 90 days, in milliseconds. -/
def TOMBSTONE_RETENTION_MS : Nat := 90 * 24 * 60 * 60 * 1000

/-- Ceiling on how many steps one `absorb` may take. -/
def MAX_MERGE_STEPS : Nat := 64

/-- Inclusive lower bound on `wall_ms`: 2020-01-01T00:00:00Z. -/
def MIN_WALL_MS : Nat := 1577836800000

theorem MIN_WALL_MS_lt : MIN_WALL_MS < 2 ^ 64 := by decide

/-- Exclusive upper bound on `wall_ms`: 2100-01-01T00:00:00Z. -/
def MAX_WALL_MS : Nat := 4102444800000

def MIN_DIGITS : Nat := 1
def MAX_DIGITS : Nat := 10
def MIN_PERIOD : Nat := 1
def MAX_PERIOD : Nat := 3600
def MAX_SECRET_LEN : Nat := 1024

end Misty
