import KnotHal.Gpio.Release
import KnotHal.Gpio.Returns
import KnotHal.Lora.Frames
import KnotHal.Lora.Fsk
import KnotHal.Lora.Spi
import KnotHal.Lora.Ticks
import KnotHal.Lora.Transceiver
import KnotHal.Nrf24.Attempts
import KnotHal.Nrf24.Beacon
import KnotHal.Nrf24.Bounds
import KnotHal.Nrf24.Channel
import KnotHal.Nrf24.Delivery
import KnotHal.Nrf24.Disconnect
import KnotHal.Nrf24.Handshake
import KnotHal.Nrf24.Keepalive
import KnotHal.Nrf24.Offer
import KnotHal.Nrf24.Pipes
import KnotHal.Nrf24.Sockets
import KnotHal.Nrf24.Stamp
import KnotHal.Nrf24.Timing
import KnotHal.Nrf24.Unread
import KnotHal.Nrfd.Access
import KnotHal.Nrfd.Agreement
import KnotHal.Nrfd.Config
import KnotHal.Nrfd.Descriptors
import KnotHal.Nrfd.Outbound
import KnotHal.Nrfd.Persistence
import KnotHal.Nrfd.Presence
import KnotHal.Nrfd.Status
import KnotHal.Radio.Messages
import KnotHal.Radio.Refs
import KnotHal.Radio.Restart
import KnotHal.Radio.Transmit
import KnotHal.Seriald.Returns
import KnotHal.Storage.Boundary
import KnotHal.Storage.Linux
import KnotHal.Storage.Refine
import KnotHal.Tools.Follow
