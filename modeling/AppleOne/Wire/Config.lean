import AppleOne.Config
import AppleOne.Wire.State

/-!
# Documents of the configuration

A configuration is a record in which every field has a default.

## Main definitions

* `Config.ofText?`: reads a configuration from text.
* `Config.encode`: writes all settings.
-/

namespace AppleOne.Config

open Json Json.RecordDecoder

/-- The document of a configuration. -/
def encode (config : Config) : Json :=
  .object [("cpu_hz", .word64 config.clockRate), ("cycle_accurate", .bool config.cycleAccurate),
    ("instructions_per_batch", .nat config.batch.toNat),
    ("max_slice_ms", .word64 config.sliceMillis),
    ("max_catch_up_ms", .word64 config.lagMillis), ("ram_size", .nat config.ramSize.toNat),
    ("basic_ram", .bool config.basic), ("crt_bs_support", .bool config.rubout),
    ("debug_push_ms", .word64 config.pushMillis),
    ("debug_push_paused_ms", .word64 config.pausedPushMillis),
    ("log_capacity", .nat config.logCapacity)]

/-- A configuration as a record. -/
def record : RecordDecoder Config :=
  let default : Config := {}
  Config.mk <$> withDefault "cpu_hz" Decoder.word64 default.clockRate
    <*> withDefault "cycle_accurate" Decoder.bool default.cycleAccurate
    <*> withDefault "instructions_per_batch" Decoder.word32 default.batch
    <*> withDefault "max_slice_ms" Decoder.word64 default.sliceMillis
    <*> withDefault "max_catch_up_ms" Decoder.word64 default.lagMillis
    <*> withDefault "ram_size" Decoder.word32 default.ramSize
    <*> withDefault "basic_ram" Decoder.bool default.basic
    <*> withDefault "crt_bs_support" Decoder.bool default.rubout
    <*> withDefault "debug_push_ms" Decoder.word64 default.pushMillis
    <*> withDefault "debug_push_paused_ms" Decoder.word64 default.pausedPushMillis
    <*> withDefault "log_capacity" Decoder.size default.logCapacity

/-- Reads a configuration. -/
def decode : Decoder Config := record.decode "configuration"

/-- Reads a configuration from text. -/
def ofText? (text : String) : Option Config := do
  (decode (← Json.read? text)).toOption

end AppleOne.Config
