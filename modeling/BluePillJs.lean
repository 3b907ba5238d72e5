import BluePillJs.Axis.Deflection
import BluePillJs.Calibration.IdleHistory
import BluePillJs.Calibration.SeamFollowing
import BluePillJs.Calibration.Travel
import BluePillJs.Encoder.Thread
import BluePillJs.Firmware.PowerCycle
import BluePillJs.Flash.Contents
import BluePillJs.Flash.Preemption
import BluePillJs.Sensor.Dummy
import BluePillJs.Sensor.Mlx90393
import BluePillJs.Sensor.Settling
import BluePillJs.Sensor.SharedBus
import BluePillJs.Serial.EncoderText
import BluePillJs.Shell.Handshake
import BluePillJs.Shell.Supervisor
import BluePillJs.Usb.Brakes
import BluePillJs.Usb.Preemption
import BluePillJs.Usb.Readiness
import BluePillJs.Usb.ReportFormat
